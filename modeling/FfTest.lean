import FfTest.MemoryAccounting.Contract
import FfTest.MemoryAccounting.HighWater
import FfTest.MemoryAccounting.FailedRealloc
import FfTest.MemoryAccounting.RequestSize
import FfTest.MemoryAccounting.PolicyFive
import FfTest.DecodeLoop.Draining
import FfTest.DecodeLoop.EndOfStream
import FfTest.DecodeLoop.PushBack
import FfTest.DecodeLoop.References
import FfTest.DecodeLoop.ReceiveTimer
import FfTest.FrameBuffers.Fit
import FfTest.FrameBuffers.Ownership
import FfTest.FrameBuffers.RowAlignment
import FfTest.Lifecycle.SafeRelease
import FfTest.Lifecycle.Leaks
import FfTest.Lifecycle.StreamSelection
import FfTest.TaskPool.Completion
import FfTest.TaskPool.Shutdown
import FfTest.TaskPool.Joining
import FfTest.TaskPool.Pinning
import FfTest.Files.Descriptors
import FfTest.Files.RecvFrame
import FfTest.Files.FileList
import FfTest.Files.OutputFile
import FfTest.Coroutines.Handles
import FfTest.Coroutines.RoundRobin
import FfTest.Coroutines.Yielding
import FfTest.FrameBuffers.AlignedWidth
import FfTest.Foundations.ByteCopy
import FfTest.Foundations.Parcels
import FfTest.Libaco.ShareStack
import FfTest.Libaco.Switching
import FfTest.Libaco.Copying
import FfTest.Foundations.PrivateContexts
import FfTest.Libaco.Runs
import FfTest.Libaco.PrivateStacks
import FfTest.Libaco.ChangingHands
import FfTest.Libaco.Claiming
import FfTest.Libaco.Turns
import FfTest.Libaco.Creation
import FfTest.Libaco.Refinement
import FfTest.Libaco.SwitchCode
import FfTest.Files.DecodedOutput
import FfTest.Foundations.Progress
import FfTest.TaskPool.MainProgram
import FfTest.TaskPool.Termination
import FfTest.Libaco.ByHandle
import FfTest.Libaco.Stacks
import FfTest.TaskPool.Options
import FfTest.Files.Disk
import FfTest.Files.ReadBack
