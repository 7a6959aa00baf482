import Docroot.Bytes
import Docroot.Text.Utf8
import Docroot.Text.Blank
import Docroot.Text.Decimal
import Docroot.Text.Percent
import Docroot.Text.Markup
import Docroot.Message.Headers
import Docroot.Message.Request
import Docroot.Message.Head
import Docroot.Message.MediaType
import Docroot.Message.Response
import Docroot.Time.Calendar
import Docroot.Site.Size
import Docroot.Net.Address
import Docroot.Text.Quoted
import Docroot.IoError
import Docroot.Stream
import Docroot.FileSystem.Path
import Docroot.FileSystem.Tree
import Docroot.FileSystem.Walk
import Docroot.FileSystem.Handle
import Docroot.Message.Delivery
import Docroot.Site.BoundedText
import Docroot.Site.Listing
import Docroot.Site.Target
import Docroot.Site.Basic
import Docroot.Limits
import Docroot.Event
import Docroot.Site.Answer
import Docroot.Connection
import Docroot.Yaml.Document
import Docroot.Net.ListenAddress
import Docroot.Settings
import Docroot.Server.Table
import Docroot.Server.Loop
import Docroot.Server.Startup
import Docroot.CommandLine
import Docroot.Main
import Docroot.Proofs.Bytes
import Docroot.Proofs.Text.Plain
import Docroot.Proofs.Message.Framing
import Docroot.Proofs.FileSystem.Handle
import Docroot.Proofs.FileSystem.Path
import Docroot.Proofs.FileSystem.Walk
import Docroot.Proofs.Site.Containment
import Docroot.Proofs.Stream
import Docroot.Proofs.Message.Delivery
import Docroot.Proofs.Site.Answer
import Docroot.Proofs.Connection.Run
import Docroot.Proofs.Connection.OneResponse
import Docroot.Proofs.Connection.HeadReading
import Docroot.Proofs.Connection.WholeResponse
import Docroot.Proofs.Connection.Waiting
import Docroot.Proofs.Message.Resumption
import Docroot.Proofs.Connection.Deadline
import Docroot.Proofs.Connection.HeadRoom
import Docroot.Proofs.FileSystem.Likeness
import Docroot.Proofs.Site.Likeness
import Docroot.Proofs.Message.Likeness
import Docroot.Proofs.Connection.Disclosure
import Docroot.Proofs.Text.Markup
import Docroot.Proofs.Text.Percent
import Docroot.Proofs.Text.Utf8
import Docroot.Proofs.FileSystem.Arrival
import Docroot.Proofs.Site.Anchors
import Docroot.Proofs.FileSystem.Tree
import Docroot.Proofs.Message.RequestLine
import Docroot.Proofs.Message.HeadEnd
import Docroot.Proofs.Message.Draft
import Docroot.Proofs.Message.RequestTarget
import Docroot.Proofs.Connection.Indifference
import Docroot.Proofs.Site.Links
import Docroot.Proofs.Server.Table
import Docroot.Proofs.Server.FreshToken
import Docroot.Proofs.Server.Run
import Docroot.Proofs.Server.Registry
import Docroot.Proofs.Server.Isolation
import Docroot.Proofs.Server.Accounting
import Docroot.Proofs.Server.Expiry
import Docroot.Proofs.FileSystem.Lookup
import Docroot.Proofs.Site.Lookup
import Docroot.Proofs.FileSystem.Passage
import Docroot.Proofs.FileSystem.Relocation
import Docroot.Proofs.Site.Twins
import Docroot.Proofs.Site.Relocation
import Docroot.Proofs.Connection.Lockstep
import Docroot.Proofs.Time.Calendar
import Docroot.Proofs.Connection.Relocation
import Docroot.Proofs.Site.Limit
import Docroot.Proofs.Text.Elements
import Docroot.Proofs.Site.Markup
import Docroot.Proofs.Site.SameHost
import Docroot.Proofs.Site.WayUp
import Docroot.Proofs.FileSystem.SameWalks
import Docroot.Proofs.FileSystem.Order
import Docroot.Proofs.Site.Rows
import Docroot.Proofs.Site.Size
import Docroot.Proofs.Net.Address
import Docroot.Proofs.Net.ListenAddress
import Docroot.Proofs.Message.OwnHeaders
import Docroot.Proofs.Server.Accepting
import Docroot.Proofs.Server.HandedOut
import Docroot.Proofs.Message.HeadSearch
import Docroot.Proofs.Connection.HeadPieces
