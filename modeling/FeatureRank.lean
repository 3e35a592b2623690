import FeatureRank.CommandLine.Arguments
import FeatureRank.CommandLine.Files
import FeatureRank.CommandLine.Run
import FeatureRank.Corpus
import FeatureRank.Counters
import FeatureRank.Document
import FeatureRank.Explanation
import FeatureRank.Fault
import FeatureRank.Feature.Formula
import FeatureRank.Feature.Query
import FeatureRank.Feature.Scorer
import FeatureRank.Feature.Set
import FeatureRank.Feature.Template
import FeatureRank.Feature.Vector
import FeatureRank.Feature.Weight
import FeatureRank.Index.Dictionary
import FeatureRank.Index.Segment
import FeatureRank.Index.Shard
import FeatureRank.Json.Reader
import FeatureRank.Json.Value
import FeatureRank.Json.Writer
import FeatureRank.Log.Entry
import FeatureRank.Log.Recorder
import FeatureRank.Log.Spec
import FeatureRank.Main
import FeatureRank.Model.Basic
import FeatureRank.Model.Format
import FeatureRank.Model.Ranker
import FeatureRank.Model.Tree
import FeatureRank.Number.Binary
import FeatureRank.Number.Power
import FeatureRank.Number.Shortest
import FeatureRank.Number.Text
import FeatureRank.Ranking.Disjunction
import FeatureRank.Ranking.Query
import FeatureRank.Ranking.ScoreCache
import FeatureRank.Ranking.Scorer
import FeatureRank.Ranking.Weight
import FeatureRank.Ranking.WeightCache
import FeatureRank.Record.Content
import FeatureRank.Record.Field
import FeatureRank.Refusal
import FeatureRank.Search.Archive
import FeatureRank.Search.Engine
import FeatureRank.Search.Logging
import FeatureRank.Search.Query
import FeatureRank.Search.Request
import FeatureRank.Search.Scoring
import FeatureRank.Search.ShardRequest
import FeatureRank.Search.Slot
import FeatureRank.Search.Visit
import FeatureRank.Settings
import FeatureRank.Statistics
import FeatureRank.Text.Alphanumeric
import FeatureRank.Text.Blank
import FeatureRank.Text.LetterCase
import FeatureRank.Text.LowerCase
import FeatureRank.Text.Range
import FeatureRank.Text.WordClass
import FeatureRank.Text.Words
import FeatureRank.Walk.Cursor
import FeatureRank.Walk.Phrase
import FeatureRank.Walk.Stop
import FeatureRank.Yaml.Node
import FeatureRank.Yaml.Token
import FeatureRank.Proofs.Outcome
import FeatureRank.Proofs.Text.Words
import FeatureRank.Proofs.Index.Postings
import FeatureRank.Proofs.Walk.Direct
import FeatureRank.Proofs.Walk.Inside
import FeatureRank.Proofs.Feature.Vector
import FeatureRank.Proofs.Feature.Scorer
import FeatureRank.Proofs.Feature.Query
import FeatureRank.Proofs.Ranking.ScoreCache
import FeatureRank.Proofs.Ranking.Disjunction
import FeatureRank.Proofs.Ranking.Scorer
import FeatureRank.Proofs.Ranking.WeightCache
import FeatureRank.Proofs.Ranking.Weight
import FeatureRank.Proofs.Ranking.Definition
import FeatureRank.Proofs.Ranking.Replay
import FeatureRank.Proofs.Log.Recorder
import FeatureRank.Proofs.Search.Slot
import FeatureRank.Proofs.Search.Statistics
import FeatureRank.Proofs.Search.Visit
import FeatureRank.Proofs.Search.Pass
import FeatureRank.Proofs.Search.SegmentSearch
import FeatureRank.Proofs.Search.Interleaving
import FeatureRank.Proofs.Search.Scoring
import FeatureRank.Proofs.Search.Logging
import FeatureRank.Proofs.Search.Request
import FeatureRank.Proofs.Search.Engine
import FeatureRank.Proofs.Search.Reports
import FeatureRank.Proofs.Index.Contents
import FeatureRank.Proofs.Index.Inversion
import FeatureRank.Proofs.Feature.Cursors
import FeatureRank.Proofs.Feature.Meaning
import FeatureRank.Proofs.Feature.FirstMatch
import FeatureRank.Proofs.Ranking.Meaning
import FeatureRank.Proofs.Search.Meaning
import FeatureRank.Proofs.Search.Documents
import FeatureRank.Proofs.Search.Hits
import FeatureRank.Proofs.Search.Ends
import FeatureRank.Proofs.Search.Agreement
import FeatureRank.Proofs.Search.SameDocuments
import FeatureRank.Proofs.Search.Layout
import FeatureRank.Proofs.Search.Segmentation
import FeatureRank.Proofs.Search.DocumentLogs
import FeatureRank.Proofs.Search.Plan
import FeatureRank.Proofs.Search.Planning
import FeatureRank.Proofs.Search.Partition
import FeatureRank.Proofs.Number.Arithmetic
import FeatureRank.Proofs.Number.TotalOrder
import FeatureRank.Proofs.Feature.Canonical
import FeatureRank.Proofs.Search.Best
import FeatureRank.Proofs.Search.Answer
import FeatureRank.Proofs.Search.Explanation
import FeatureRank.Proofs.Search.Fetching
import FeatureRank.Proofs.Search.Observation
import FeatureRank.Proofs.Search.Counting
import FeatureRank.Proofs.Search.Compiled
import FeatureRank.Proofs.Search.Resolving
import FeatureRank.Proofs.Search.Success
import FeatureRank.Proofs.Search.Repartition
import FeatureRank.Proofs.Search.Kept
import FeatureRank.Proofs.Search.Presence
import FeatureRank.Proofs.Walk.Reading
import FeatureRank.Proofs.Search.States
import FeatureRank.Proofs.Search.Places
import FeatureRank.Proofs.Search.Faultless
import FeatureRank.Proofs.Walk.Contract
import FeatureRank.Proofs.Walk.Leapfrog
import FeatureRank.Proofs.Ranking.Placement
import FeatureRank.Proofs.Feature.Walking
import FeatureRank.Proofs.Feature.PhraseSearch
import FeatureRank.Proofs.Index.Dictionary
import FeatureRank.Proofs.Search.QueryTerms
import FeatureRank.Proofs.Search.TermSearch
import FeatureRank.Proofs.Search.TermScores
import FeatureRank.Proofs.Index.Addresses
import FeatureRank.Proofs.Search.DerivedSums
import FeatureRank.Proofs.Search.Visiting
import FeatureRank.Proofs.Search.Rescoring
import FeatureRank.Proofs.Feature.Rendering
import FeatureRank.Proofs.Feature.Requirements
import FeatureRank.Proofs.Model.Acceptance
import FeatureRank.Proofs.Json.Members
import FeatureRank.Proofs.Log.Calls
import FeatureRank.Proofs.Log.Documents
import FeatureRank.Proofs.Index.Numbering
import FeatureRank.Proofs.Index.Packing
import FeatureRank.Proofs.Number.Positivity
import FeatureRank.Proofs.Search.Denominators
import FeatureRank.Proofs.Ranking.SharedCache
import FeatureRank.Proofs.Search.FeatureLogs
import FeatureRank.Proofs.Feature.Rewriting
import FeatureRank.Proofs.Number.Widening
import FeatureRank.Proofs.Model.Format
