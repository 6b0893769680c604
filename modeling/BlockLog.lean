import BlockLog.Command
import BlockLog.Device.Faulty
import BlockLog.Device.Memory
import BlockLog.Main
import BlockLog.Proofs.Cache.Memo
import BlockLog.Proofs.Command.Dump
import BlockLog.Proofs.Command.RoundTrip
import BlockLog.Proofs.Command.Stress
import BlockLog.Proofs.Device.Agreement
import BlockLog.Proofs.Device.Reference
import BlockLog.Proofs.Log.Amplification
import BlockLog.Proofs.Log.AppendOrder
import BlockLog.Proofs.Log.Coherence
import BlockLog.Proofs.Log.Degradation
import BlockLog.Proofs.Log.Durability
import BlockLog.Proofs.Log.Flushed
import BlockLog.Proofs.Log.Independence
import BlockLog.Proofs.Log.Lookup
import BlockLog.Proofs.Log.Refinement
import BlockLog.Proofs.Log.Residency
import BlockLog.Proofs.Log.Retry
import BlockLog.Proofs.Log.RingContract
import BlockLog.Proofs.Ring.FlushCycle
import BlockLog.Proofs.Ring.Spans
