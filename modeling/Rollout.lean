import Rollout.Main
import Rollout.Proofs.Graph.Paths
import Rollout.Proofs.Graph.Edges
import Rollout.Proofs.Schedule.Walk
import Rollout.Proofs.Schedule.Order
import Rollout.Proofs.Entries
import Rollout.Proofs.Plan
import Rollout.Proofs.Plan.Partition
import Rollout.Proofs.Gate
import Rollout.Proofs.Gate.Plan
import Rollout.Proofs.Feedstock
import Rollout.Proofs.Gate.Table
import Rollout.Proofs.Graph.Revision
import Rollout.Proofs.Wave
import Rollout.Proofs.Wave.Safety
import Rollout.Proofs.Graph.Cycles
import Rollout.Proofs.Gate.Progress
import Rollout.Proofs.Wave.Progress
import Rollout.Proofs.Graph.Prune
import Rollout.Proofs.Rebuild
import Rollout.Proofs.Campaign
import Rollout.Proofs.Graph.Alike
import Rollout.Proofs.Feedstock.Lapse
import Rollout.Proofs.Gate.Lapse
import Rollout.Proofs.Campaign.Lapse
import Rollout.Proofs.Feedstock.Progress
import Rollout.Proofs.Gate.Further
import Rollout.Proofs.Gate.Apart
import Rollout.Proofs.Graph.Loops
import Rollout.Proofs.Schedule.Paths
import Rollout.Proofs.Plan.Order
import Rollout.Proofs.Wave.Loops
import Rollout.Proofs.Graph.Elimination
import Rollout.Proofs.Graph.Reach
import Rollout.Proofs.Graph.Cut
import Rollout.Proofs.PlatformGraph.Requirements
import Rollout.Proofs.PlatformGraph.Extent
import Rollout.Proofs.Graph.Plain
import Rollout.Proofs.Plan.Alike
import Rollout.Proofs.Campaign.Foreign
import Rollout.Proofs.Wave.Locality
import Rollout.Proofs.Json.Spelling
import Rollout.Proofs.Json.Document
import Rollout.Proofs.Identity
import Rollout.Proofs.Identity.Agreement
import Rollout.Proofs.Plan.Faults
import Rollout.Proofs.Swap
import Rollout.Proofs.Json.Canonical
import Rollout.Proofs.Json.Record
import Rollout.Proofs.Feedstock.Record
import Rollout.Proofs.Feedstock.Document
import Rollout.Proofs.Manifest
import Rollout.Proofs.Migration
import Rollout.Proofs.Recipe.Dependency
import Rollout.Proofs.Recipe.Counter
import Rollout.Proofs.Migration.Rerun
import Rollout.Proofs.Graph.Rebuilt
import Rollout.Proofs.Graph.Search
import Rollout.Proofs.Graph.Eliminated
import Rollout.Proofs.Graph.Induced
import Rollout.Proofs.Json.Replaced
import Rollout.Proofs.Json.Shape
import Rollout.Proofs.Feedstock.Shape
import Rollout.Proofs.Feedstock.Loose
import Rollout.Proofs.Graph.Snapshot
import Rollout.Proofs.Graph.Leniency
import Rollout.Proofs.Recipe.Occurrence
import Rollout.Proofs.Recipe.Transparent
import Rollout.Proofs.Recipe.Composition
import Rollout.Proofs.Recipe.Rename
import Rollout.Proofs.Recipe.Onwards
import Rollout.Proofs.Recipe.Interplay
import Rollout.Proofs.Recipe.Apart
import Rollout.Proofs.Migration.Exchange
import Rollout.Proofs.Gate.Pinning
import Rollout.Proofs.Migration.Run
import Rollout.Proofs.Yaml.Entries
import Rollout.Proofs.Profile
import Rollout.Proofs.Text.Row
import Rollout.Proofs.Recipe.Rows
import Rollout.Proofs.Graph.Listing
import Rollout.Proofs.Schedule.Descent
import Rollout.Proofs.Calendar.Day
import Rollout.Proofs.Calendar.Spelling
import Rollout.Proofs.Calendar.Moment
