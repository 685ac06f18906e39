import EnvoyFiles.Support.Transition
import EnvoyFiles.Filter.Step
import EnvoyFiles.Filter.Moves
import EnvoyFiles.Filter.Simulation
import EnvoyFiles.Filter.Accounting
import EnvoyFiles.Filter.Protocol
import EnvoyFiles.Filter.Chunks
import EnvoyFiles.Filter.Progress
import EnvoyFiles.Filter.Body
import EnvoyFiles.Filter.Integrity
import EnvoyFiles.Core.PlanBodies
import EnvoyFiles.Filter.ShortRead
import EnvoyFiles.Filter.Backpressure
import EnvoyFiles.Filter.Window
import EnvoyFiles.Filter.Buffering
import EnvoyFiles.Core.PathGrammar
import EnvoyFiles.Filter.IndexFiles
import EnvoyFiles.Filter.IndexLoop
import EnvoyFiles.Io.Os
import EnvoyFiles.Io.Engine
import EnvoyFiles.Io.Containment
import EnvoyFiles.Io.CanonCache
import EnvoyFiles.Filter.Mailbox
import EnvoyFiles.Core.RangeGrammar
import EnvoyFiles.Filter.Lengths
import EnvoyFiles.Support.Multipart
import EnvoyFiles.Filter.MultipartBody
import EnvoyFiles.Core.Revalidation
import EnvoyFiles.Filter.Lookup
import EnvoyFiles.Filter.Redirects
import EnvoyFiles.Filter.Stores
import EnvoyFiles.Filter.SequentialLookup
import EnvoyFiles.Core.HeaderSafety
import EnvoyFiles.Filter.ConfigLoader
import EnvoyFiles.Filter.LoadedConfig
import EnvoyFiles.Io.Disk
import EnvoyFiles.Filter.Disks
import EnvoyFiles.Filter.TwoStores
import EnvoyFiles.Filter.Dotfiles
import EnvoyFiles.Filter.HiddenFiles
import EnvoyFiles.Filter.Invisibility
import EnvoyFiles.Core.DisabledValidators
import EnvoyFiles.Core.NotModified
import EnvoyFiles.Filter.ListingLinks
import EnvoyFiles.Filter.Reads
import EnvoyFiles.Filter.InertHandles
import EnvoyFiles.Io.Reactor
import EnvoyFiles.Support.Custody
import EnvoyFiles.Io.FileTable
import EnvoyFiles.Filter.DirectoryUrls
import EnvoyFiles.Filter.ConfigStrictness
import EnvoyFiles.Filter.HeaderCollection
import EnvoyFiles.Filter.OpenedPaths
import EnvoyFiles.Filter.RedirectTargets
import EnvoyFiles.Filter.Walk
import EnvoyFiles.Core.SingleRange
import EnvoyFiles.Filter.AdvertisedRanges
import EnvoyFiles.Filter.Negotiation
import EnvoyFiles.Core.Conditionals
import EnvoyFiles.Core.IgnoredConditionals
import EnvoyFiles.Core.EncodingRanks
import EnvoyFiles.Core.RangeArithmetic
import EnvoyFiles.Core.RangeClamping
import EnvoyFiles.Core.RefusedCoding
import EnvoyFiles.Core.DeviceNames
import EnvoyFiles.Io.PositionalReads
import EnvoyFiles.Filter.EntityTags
import EnvoyFiles.Filter.HeldHandles
import EnvoyFiles.Filter.Truncation
import EnvoyFiles.Io.Jobs
import EnvoyFiles.Server.Accounts
import EnvoyFiles.Server.Isolation
import EnvoyFiles.Server.Responses
import EnvoyFiles.Server.Resources
import EnvoyFiles.Core.ListingSizes
import EnvoyFiles.Core.Resumption
import EnvoyFiles.Server.Downloads
import EnvoyFiles.Server.Panics
import EnvoyFiles.Server.Atomicity
import EnvoyFiles.Server.HiddenFiles
