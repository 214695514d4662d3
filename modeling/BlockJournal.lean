import BlockJournal.Bytes.Lemmas
import BlockJournal.Proofs.Aliases
import BlockJournal.Proofs.Backoff
import BlockJournal.Proofs.CachedBuffers
import BlockJournal.Proofs.CancelEffect
import BlockJournal.Proofs.Charging
import BlockJournal.Proofs.CleanAliases
import BlockJournal.Proofs.Commit.Packing
import BlockJournal.Proofs.Commuting
import BlockJournal.Proofs.Counters
import BlockJournal.Proofs.CrashRecovery
import BlockJournal.Proofs.Device.Uses
import BlockJournal.Proofs.Features
import BlockJournal.Proofs.RecoveryMerge
import BlockJournal.Proofs.Refusals
import BlockJournal.Proofs.RefusedFeatures
import BlockJournal.Proofs.Rescan
import BlockJournal.Proofs.Ring.Reports
import BlockJournal.Proofs.SharedPool
import BlockJournal.Proofs.StaleMarks
import BlockJournal.Proofs.Store.Handouts
import BlockJournal.Proofs.Table.Draining
import BlockJournal.Proofs.Table.FiniteMap
import BlockJournal.Proofs.Table.Handles
import BlockJournal.Proofs.Table.Yielding
import BlockJournal.ScriptedLog
import BlockJournal.Store.Lemmas
import BlockJournal.Table.Lemmas
import BlockJournal.Wire.Encode
