import Klevret.Network.HardwareAddress
import Klevret.Network.AddressText
import Klevret.Options.Elements
import Klevret.Foundation.Run
import Klevret.Foundation.Refinement
import Klevret.Foundation.Progress
import Klevret.Foundation.RemoteCalls
import Klevret.Foundation.SelfDelimiting
import Klevret.Foundation.Maintained
import Klevret.Foundation.Trie
import Klevret.Foundation.TrieWalk
import Klevret.Foundation.Chunks
import Klevret.Options.Payload
import Klevret.Options.Encode
import Klevret.Options.RoundTrip
import Klevret.Options.Rewriting
import Klevret.Messages.DhcpMessage
import Klevret.Messages.Header
import Klevret.Messages.OptionArea
import Klevret.Messages.Bounds
import Klevret.Foundation.Tables
import Klevret.Pool.AddressPool
import Klevret.Pool.Effects
import Klevret.Pool.Invariant
import Klevret.Pool.Leases
import Klevret.Pool.Exclusion
import Klevret.Pool.LeaseTables
import Klevret.Pool.Reservations
import Klevret.Server.DhcpServer
import Klevret.Server.Replies
import Klevret.Messages.Accepted
import Klevret.Server.Passes
import Klevret.Server.Steps
import Klevret.Server.Upkeep
import Klevret.Server.Delivery
import Klevret.Server.MainLoop
import Klevret.Server.Interleaving
import Klevret.Server.Progress
import Klevret.Server.Offers
import Klevret.Foundation.Histories
import Klevret.Server.History
import Klevret.Foundation.Turns
import Klevret.Server.Service
import Klevret.Server.Exchange
import Klevret.Server.Survival
import Klevret.Server.PoolRanges
import Klevret.Cli.CommandElement
import Klevret.Cli.Command
import Klevret.Pool.Failures
import Klevret.Pool.Stability
import Klevret.Pool.Partition
import Klevret.Server.Allocation
import Klevret.Foundation.Words
import Klevret.Messages.HeaderRoundTrip
import Klevret.Cli.Dispatch
import Klevret.Api.JsonText
import Klevret.Api.ApiMessage
import Klevret.Api.ApiListener
import Klevret.Api.ApiHandlers
import Klevret.Api.ApiServer
import Klevret.Api.ApiConnector
import Klevret.Api.Chain
import Klevret.Api.ChainCalls
import Klevret.Api.ChainRounds
import Klevret.Api.ChainReturns
import Klevret.Api.Operator
import Klevret.Options.Consumption
import Klevret.Options.Meaning
import Klevret.Messages.Segments
import Klevret.Messages.Reencoding
import Klevret.Messages.Encoding
import Klevret.Server.Decoding
import Klevret.Pool.Ranges
import Klevret.Pool.ExclusionOrder
import Klevret.Pool.Newcomers
import Klevret.Pool.Clients
import Klevret.Foundation.Delimited
import Klevret.Network.DottedQuad
import Klevret.Network.DottedText
import Klevret.Cli.Numbers
import Klevret.Cli.Octets
import Klevret.Cli.Recognisers
import Klevret.Cli.Patterns
import Klevret.Cli.TreeNodes
import Klevret.Cli.ArgumentStack
import Klevret.Cli.Handlers
import Klevret.Cli.LineEditor
import Klevret.Cli.Hints
import Klevret.Network.MaskText
import Klevret.Foundation.Fragments
import Klevret.Server.UdpSender
import Klevret.Server.Interfaces
import Klevret.Server.Checksum
import Klevret.Network.AddressViews
import Klevret.Pool.Keys
