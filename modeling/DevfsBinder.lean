import DevfsBinder.Acknowledgement
import DevfsBinder.ArenaFreeSpace
import DevfsBinder.ArenaTiling
import DevfsBinder.BufferTargets
import DevfsBinder.CallRuns
import DevfsBinder.Confinement
import DevfsBinder.CounterRuns
import DevfsBinder.DeathDelivery
import DevfsBinder.DeliveredBuffers
import DevfsBinder.Departures
import DevfsBinder.EntryPoints
import DevfsBinder.HandleNames
import DevfsBinder.LockDiscipline
import DevfsBinder.ModuleLifecycle
import DevfsBinder.NodeEnumeration
import DevfsBinder.OnewayBudget
import DevfsBinder.OpenSlots
import DevfsBinder.OwnerConversation
import DevfsBinder.PayloadBounds
import DevfsBinder.PoolLimits
import DevfsBinder.PoolSleepers
import DevfsBinder.Provenance
import DevfsBinder.QueueIntegrity
import DevfsBinder.ReadTermination
import DevfsBinder.ReferenceLedger
import DevfsBinder.RunRefinement
import DevfsBinder.TransferBounds
import DevfsBinder.OwnerNotification
