import FfTest.Libaco.Refinement

/-! # The switch on records is the switch in code

`State.acosw` copies records. `acosw_code` says that this is what the instructions do, where memory
holds the records of a reachable state. -/

namespace FfTest.Libaco

variable {main : ℕ} {s s' : State}

/-- Memory holds the registers of each `aco_t`. -/
def Holds (m : Memory) (s : State) : Prop := ∀ {co c}, s.acos co = some c → loadRegs m co = c.reg

/-- The registers of different coroutines lie apart. -/
theorem Inv.apart_regSpan (hinv : Inv main s) {co o : ℕ} {c d : Aco} (hc : s.acos co = some c)
    (hd : s.acos o = some d) (hne : co ≠ o) : (regSpan co).Apart (regSpan o) := by
  have hfirst : ∀ a, (regSpan a).Within ⟨a, sizeofAco⟩ := fun a =>
    ⟨le_rfl, Nat.add_le_add_left (by decide : 72 ≤ sizeofAco) a⟩
  have hroles : Role.aco co ≠ .aco o := fun h => hne (Role.aco.inj h)
  exact (hinv.parcels.apart hroles (span_aco hc) (span_aco hd)).mono (hfirst co) (hfirst o)

/-- **The code of a switch.** In a reachable state the instructions of `acosw` do to memory and to
the processor what the model does to records, and change no other byte. -/
theorem acosw_code (hinv : Inv main s) {fromCo toCo : ℕ} (hne : toCo ≠ fromCo)
    (hs : s.acosw fromCo toCo = some s') {c : Cpu} (hholds : Holds c.mem s)
    (hcaller : c.caller = s.cpu) (hrdi : (c.reg .rdi).toNat = fromCo)
    (hrsi : (c.reg .rsi).toNat = toCo) (hfrom : fromCo + 72 ≤ 2 ^ 64) (hto : toCo + 72 ≤ 2 ^ 64) :
    Holds (c.run acosw).mem s' ∧ (c.run acosw).live = s'.cpu ∧
      ∀ {b : Span}, b.Apart (regSpan fromCo) → AgreeOn c.mem (c.run acosw).mem b := by
  simp only [State.acosw, Option.bind_eq_bind, Option.bind_eq_some_iff] at hs
  obtain ⟨f, hf, t, ht, hs⟩ := hs
  rw [Function.update_of_ne hne] at ht
  have hs' := (Option.some.inj hs).symm
  have hacos : s'.acos = Function.update s.acos fromCo (some { f with reg := s.cpu }) := by rw [hs']
  have hcpu : s'.cpu = t.reg := by rw [hs']
  obtain ⟨hmem, hlive⟩ := run_acosw (c := c) (hrdi.symm ▸ hfrom) (hrsi.symm ▸ hto)
    (by rw [hrdi, hrsi]; exact hinv.apart_regSpan ht hf hne)
  rw [hrdi, hcaller] at hmem
  rw [hrsi, hholds ht] at hlive
  refine ⟨fun {co d} hd => ?_, hlive.trans hcpu.symm, fun hb => ?_⟩
  · by_cases hco : co = fromCo
    · subst hco
      rw [hacos, Function.update_self] at hd
      obtain rfl := Option.some.inj hd
      rw [hmem, loadRegs_storeRegs]
    · rw [hacos, Function.update_of_ne hco] at hd
      rw [hmem, loadRegs_congr (agreeOn_storeRegs c.mem s.cpu (hinv.apart_regSpan hd hf hco)),
        hholds hd]
  · rw [hmem]
    exact agreeOn_storeRegs c.mem s.cpu hb

/-- The main program is about to switch to the first coroutine. -/
def aboutToSwitch : Cpu where
  reg
    | .rdi => 4096
    | .rsi => 12288
    | .rsp => -8
    | _ => 0
  rip := 0
  fpucw := 0
  mxcsr := 0
  mem := storeRegs (fun _ => 0) 12288 ⟨0, 0, 0, 0, 5, 2113512, 0, 0, 0, 0⟩

theorem acosw_code_aboutToSwitch :
    ∃ s s' : State, s.acosw 4096 12288 = some s' ∧ Holds (aboutToSwitch.run acosw).mem s' ∧
      (aboutToSwitch.run acosw).live = s'.cpu ∧
      ∀ {b : Span}, b.Apart (regSpan 4096) →
        AgreeOn aboutToSwitch.mem (aboutToSwitch.run acosw).mem b := by
  have hlegal := turns_legal
  rw [← List.take_append_drop 2 firstTurn, List.append_assoc] at hlegal
  obtain ⟨-, s, -, hrun, hinv, -⟩ := run_spec hlegal.of_append
  have hs := (Option.some.inj hrun).symm
  have hacos : s.acos = Function.update (Function.update (fun _ => none)
      4096 (some ⟨regsAt 0, none, 0, false, 0, ⟨none, 0, 0, 0, 0, 0⟩, none⟩))
      12288 (some ⟨⟨0, 0, 0, 0, 5, 2113512, 0, 0, 0, 0⟩, some 4096, 0, false, 5,
        ⟨some 13312, 64, 0, 0, 0, 0⟩, some 8192⟩) := by
    rw [hs]
    rfl
  have hcpu : s.cpu = regsAt 0 := by rw [hs]; rfl
  have hmain : s.acos 4096 = some ⟨regsAt 0, none, 0, false, 0, ⟨none, 0, 0, 0, 0, 0⟩, none⟩ := by
    rw [hacos]
    rfl
  have hfirst : ∃ c, s.acos 12288 = some c := by
    rw [hacos]
    exact ⟨_, rfl⟩
  obtain ⟨c, hc⟩ := hfirst
  have hzero : loadRegs (fun _ => 0) 4096 = regsAt 0 := by decide
  refine ⟨s, _, acosw_eq hmain hc (by decide), acosw_code hinv (by decide)
    (acosw_eq hmain hc (by decide)) (fun {co d} hd => ?_) (by rw [hcpu]; decide) rfl rfl
    (by decide) (by decide)⟩
  rw [hacos] at hd
  by_cases hco : co = 12288
  · subst hco
    rw [Function.update_self] at hd
    obtain rfl := Option.some.inj hd
    exact loadRegs_storeRegs ..
  · rw [Function.update_of_ne hco] at hd
    by_cases hco' : co = 4096
    · subst hco'
      rw [Function.update_self] at hd
      obtain rfl := Option.some.inj hd
      exact (loadRegs_congr (agreeOn_storeRegs _ _ (by decide))).trans hzero
    · rw [Function.update_of_ne hco'] at hd
      cases hd

end FfTest.Libaco
