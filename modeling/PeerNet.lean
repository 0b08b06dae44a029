import PeerNet.Text.Blank
import PeerNet.Text.Split
import PeerNet.Decimal.Number
import PeerNet.Random.Source
import PeerNet.Overrides.Conf
import PeerNet.Topology.Validity
import PeerNet.Topology.Peers
import PeerNet.Topology.Generate
import PeerNet.Config.Validity
import PeerNet.Store.Operation
import PeerNet.Markup.Tag
import PeerNet.Markup.Event
import PeerNet.GraphML.Encode
import PeerNet.GraphML.Decode
import PeerNet.Layout.Ranked
import PeerNet.Layout.Strategy
import PeerNet.Session.Operation
import PeerNet.CommandLine.Run
import PeerNet.Json.Print
import PeerNet.Json.Parse
import PeerNet.Topology.Json
import PeerNet.Config.Document
import PeerNet.Config.Load
import PeerNet.Main
import PeerNet.Proofs.Store.Invariant
import PeerNet.Proofs.Store.History
import PeerNet.Proofs.GraphML.Edited
import PeerNet.Proofs.GraphML.Reissue
import PeerNet.Proofs.GraphML.Truncation
import PeerNet.Proofs.GraphML.Streaming
import PeerNet.Proofs.Store.Frames
import PeerNet.Proofs.Session.Invariant
import PeerNet.Proofs.GraphML.Outline
import PeerNet.Proofs.Session.Drag
import PeerNet.Proofs.Session.Supersession
import PeerNet.Proofs.Session.Arrangement
import PeerNet.Proofs.Session.Coordinates
import PeerNet.Proofs.Session.Leaving
import PeerNet.Proofs.Store.Seeding
import PeerNet.Proofs.Layout.Flow
import PeerNet.Proofs.GraphML.PresetPaths
import PeerNet.Proofs.CommandLine.Animation
import PeerNet.Proofs.Layout.Trail
import PeerNet.Proofs.Layout.LongestPaths
import PeerNet.Proofs.Layout.Cooling
import PeerNet.Proofs.Store.Options
import PeerNet.Proofs.Store.Copies
import PeerNet.Proofs.Overrides.Sections
import PeerNet.Proofs.Topology.Cycle
import PeerNet.Proofs.Topology.RandomGraph
import PeerNet.Proofs.Topology.Peers
import PeerNet.Proofs.Topology.Json
import PeerNet.Proofs.Config.Acceptance
import PeerNet.Proofs.Layout.Reorderings
import PeerNet.Proofs.Layout.Springs
