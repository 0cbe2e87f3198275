import Synod.Acceptor
import Synod.Address
import Synod.Assignment
import Synod.Ballot
import Synod.Cluster
import Synod.CommandLine.Arguments
import Synod.CommandLine.Commands
import Synod.CommandLine.Report
import Synod.CommandLine.World
import Synod.Config.Basic
import Synod.Config.Schema
import Synod.Config.Template
import Synod.Document.Basic
import Synod.Document.Printer
import Synod.Effect
import Synod.Error
import Synod.FileTree
import Synod.Learner
import Synod.Link
import Synod.Load
import Synod.Main
import Synod.Message
import Synod.Node
import Synod.Outbound
import Synod.Proofs.Acceptor
import Synod.Proofs.Agreement
import Synod.Proofs.Allegiance
import Synod.Proofs.Answer
import Synod.Proofs.Archive
import Synod.Proofs.Ascent
import Synod.Proofs.Assembly
import Synod.Proofs.Ballot
import Synod.Proofs.Bookkeeping
import Synod.Proofs.CatchUp
import Synod.Proofs.Cells
import Synod.Proofs.Checksum
import Synod.Proofs.Cluster
import Synod.Proofs.Codec
import Synod.Proofs.Commitment
import Synod.Proofs.Completion
import Synod.Proofs.Configuration
import Synod.Proofs.Course
import Synod.Proofs.Delivery
import Synod.Proofs.Discipline
import Synod.Proofs.Durable
import Synod.Proofs.Files
import Synod.Proofs.Finality
import Synod.Proofs.Flush
import Synod.Proofs.Founding
import Synod.Proofs.Framing
import Synod.Proofs.Growth
import Synod.Proofs.Heartbeat
import Synod.Proofs.History
import Synod.Proofs.Leadership
import Synod.Proofs.Life
import Synod.Proofs.Loss
import Synod.Proofs.Mandate
import Synod.Proofs.Member
import Synod.Proofs.Membership
import Synod.Proofs.Nameless
import Synod.Proofs.Notice
import Synod.Proofs.Outbid
import Synod.Proofs.Overturn
import Synod.Proofs.Proposer
import Synod.Proofs.Quotation
import Synod.Proofs.Redelivery
import Synod.Proofs.Registration
import Synod.Proofs.Rejection
import Synod.Proofs.Reply
import Synod.Proofs.Report
import Synod.Proofs.Restart
import Synod.Proofs.Retention
import Synod.Proofs.Roles
import Synod.Proofs.Round
import Synod.Proofs.Route
import Synod.Proofs.Silence
import Synod.Proofs.Storage
import Synod.Proofs.Tally
import Synod.Proofs.Validity
import Synod.Proofs.Verdict
import Synod.Proofs.Voter
import Synod.Proofs.Warrant
import Synod.Proofs.Writing
import Synod.Proposer
import Synod.Replica
import Synod.Service
import Synod.Store
import Synod.Store.Image
import Synod.Store.Locator
import Synod.Store.Opening
import Synod.Toml.Number
import Synod.Toml.Reader
import Synod.Toml.Scan
import Synod.Toml.Text
import Synod.Toml.Tree
import Synod.Toml.Value
import Synod.Wire.Checksum
import Synod.Wire.Codec
import Synod.Wire.Frame
