import FramedStore.Main
import FramedStore.Proofs.Remote.Runs
import FramedStore.Proofs.Storage.Runs
import FramedStore.Proofs.Session.Conversation
import FramedStore.Proofs.Router.Damage
import FramedStore.Proofs.Text.Decimal
import FramedStore.Record.Trailer
import FramedStore.Router.Call
import FramedStore.Storage.Stream
import FramedStore.TagStore.Packed
import FramedStore.Proofs.Effect.Alike
import FramedStore.Proofs.TagStore.Alike
import FramedStore.Proofs.Record.TextRecord
import FramedStore.Proofs.Router.Namespaces
import FramedStore.Proofs.Router.Order
import FramedStore.Proofs.Router.Contents
import FramedStore.Proofs.Router.Agreement
import FramedStore.Proofs.Router.Turns
import FramedStore.Proofs.Router.History
import FramedStore.Proofs.Router.Replay
import FramedStore.Proofs.Router.Interleaving
import FramedStore.Proofs.Router.Alone
import FramedStore.Proofs.Wire.RequestFormat
import FramedStore.Proofs.TagStore.Reads
import FramedStore.Proofs.Record.Editing
import FramedStore.Proofs.Record.TailWalk
import FramedStore.Proofs.Remote.InStep
import FramedStore.Traffic
import FramedStore.Proofs.Remote.Halves
import FramedStore.Proofs.Traffic.Line
import FramedStore.Proofs.Traffic.Order
import FramedStore.Proofs.Router.Recency
import FramedStore.Proofs.Path
import FramedStore.Proofs.Router.FileName
import FramedStore.Proofs.Router.Files
import FramedStore.Proofs.Router.Restart
import FramedStore.Proofs.Router.Failures
import FramedStore.Proofs.Router.JointTags
import FramedStore.Proofs.Command
import FramedStore.Proofs.Effect.Programs
import FramedStore.Proofs.Router.Apart
import FramedStore.Proofs.Record.Split
import FramedStore.Proofs.Server.Slots
import FramedStore.Proofs.Storage.Stream
import FramedStore.Proofs.TagStore.Tour
import FramedStore.Proofs.TagStore.ShortReads
import FramedStore.Proofs.Record.FailedReads
import FramedStore.Proofs.Router.Collisions
import FramedStore.Proofs.TagStore.Ending
import FramedStore.Proofs.Record.Indicators
import FramedStore.Proofs.Positions
