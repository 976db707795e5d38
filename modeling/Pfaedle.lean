import Pfaedle.EDijkstraOptimal
import Pfaedle.GapGeometry
import Pfaedle.GapTravel
import Pfaedle.MinLength
import Pfaedle.FileOrder
import Pfaedle.NegRestrictions
import Pfaedle.SplitRules
import Pfaedle.SnapFindable
import Pfaedle.VerdictOrder
import Pfaedle.OsmIdSetLookup
import Pfaedle.CacheTransparent
import Pfaedle.RowLoss
import Pfaedle.ProducedFeed
import Pfaedle.RereadRows
import Pfaedle.WriteRead
import Pfaedle.TripClusters
import Pfaedle.MotStops
import Pfaedle.SortedMap
import Pfaedle.SnapStreets
import Pfaedle.CleanUp
import Pfaedle.EdgeGeometry
import Pfaedle.RuleSurvival
import Pfaedle.CsvCodec
import Pfaedle.StopTimes
import Pfaedle.ShapeReplacement
import Pfaedle.ShapeLine
import Pfaedle.Components
import Pfaedle.BoundingBox
import Pfaedle.FilterMerge
import Pfaedle.ConfigMerge
import Pfaedle.KeptKeys
import Pfaedle.StoredGraph
import Pfaedle.OrphanRemoval
import Pfaedle.SymmetricGraph
import Pfaedle.HeuristicCosts
import Pfaedle.GtfsShape
import Pfaedle.SpatialGrid
import Pfaedle.EdgePoints
import Pfaedle.CheckedHops
import Pfaedle.InterpolatedTimes
import Pfaedle.FeedProcessing
import Pfaedle.GreedyPlacement
import Pfaedle.ClusterPartition
import Pfaedle.SpeedLimits
import Pfaedle.SplitItems
import Pfaedle.ValueLists
import Pfaedle.TagOrder
import Pfaedle.EdgeTracks
import Pfaedle.WaySegments
import Pfaedle.SnapPosition
import Pfaedle.NameSimi
import Pfaedle.RelationLines
import Pfaedle.ClosingSearch
import Pfaedle.DepthSearch
import Pfaedle.EDijkstraTargets
import Pfaedle.PilotRun
import Pfaedle.PilotPlacement
import Pfaedle.TimeGrammar
import Pfaedle.LineEnds
import Pfaedle.GridCoverage
import Pfaedle.LineSimplify
import Pfaedle.StationSimi
import Pfaedle.FrechetDistance
import Pfaedle.EvalHistogram
import Pfaedle.LineProjection
import Pfaedle.NetworkWalks
import Pfaedle.EDijkstraReverse
import Pfaedle.EditDistance
import Pfaedle.NestedEntries
import Pfaedle.JsonRoundTrip
import Pfaedle.ShapeReferences
import Pfaedle.FilterSufficient
import Pfaedle.StopCandidates
import Pfaedle.CheapestRoute
import Pfaedle.OverpassQuery
import Pfaedle.TransitGraph
import Pfaedle.RefCounts
import Pfaedle.PayloadMemory
import Pfaedle.GroupMemory
import Pfaedle.AccFrechet
import Pfaedle.BoxCoverage
import Pfaedle.Segmentize
import Pfaedle.RouteGreedy2
