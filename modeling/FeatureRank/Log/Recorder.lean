import FeatureRank.Fault
import FeatureRank.Log.Entry
import FeatureRank.Ranking.Scorer

/-! # Recorders

    A recorder builds the logs of the hits it is shown, one after the other.
    `nextDoc` opens a fresh log; values go into the open log until the next one is
    opened or the logs are taken. -/

namespace FeatureRank

/-- The log that is being built. -/
structure OpenLog where
  hit : Nat
  /-- the last value of each feature -/
  values : List (Option Float32)
  /-- what features left beside their values, if they left anything -/
  extra : Option (List (String × Json)) := none

structure LogRecorder where
  /-- the names of the features by ordinal -/
  features : List String
  /-- whether a feature without a value is reported as zero -/
  missingAsZero : Bool
  current : Option OpenLog := none
  /-- the finished logs with their hits, in order -/
  logs : List (Nat × List LogEntry) := []

namespace LogRecorder

def featureCount (r : LogRecorder) : Nat := r.features.length

/-- What is reported for a feature with or without a value. -/
def reported (r : LogRecorder) (value : Option Float32) : Option LogValue :=
  match value with
  | some value => some (.score value)
  | none => if r.missingAsZero then some (.score 0.0) else none

/-- The entries of a log: the features by ordinal, then what they left beside. -/
def entries (r : LogRecorder) (log : OpenLog) : List LogEntry :=
  (r.features.zip log.values).map (fun (name, value) => ⟨name, r.reported value⟩) ++
    (log.extra.map fun values => ⟨LogEntry.extraName, some (.extra values)⟩).toList

/-- The open log finished, if there is one. -/
def close (r : LogRecorder) : LogRecorder :=
  match r.current with
  | some log => { r with current := none, logs := r.logs ++ [(log.hit, r.entries log)] }
  | none => r

/-- A fresh log for a hit. -/
def nextDoc (r : LogRecorder) (hit : Nat) : LogRecorder :=
  { r.close with current := some ⟨hit, List.replicate r.featureCount none, none⟩ }

/-- A value of a feature in the open log. -/
def accept (r : LogRecorder) (ordinal : Nat) (value : Float32) : Checked LogRecorder :=
  match r.current with
  | none => .error .valueBeforeHit
  | some log =>
    if ordinal < r.featureCount then
      .ok { r with current := some { log with values := log.values.set ordinal (some value) } }
    else .error .noEntry

/-- A value under a key beside those of the features. -/
def addExtra (r : LogRecorder) (key : String) (value : Json) : Checked LogRecorder :=
  match r.current with
  | none => .error .extraBeforeHit
  | some log =>
    .ok { r with current := some { log with extra := some (Json.put key value (log.extra.getD [])) } }

/-- What the open log holds beside the values of the features. -/
def extras (r : LogRecorder) : List (String × Json) := (r.current.bind (·.extra)).getD []

def acceptAll (r : LogRecorder) (values : List (Nat × Float32)) : Checked LogRecorder :=
  values.foldlM (fun r (ordinal, value) => r.accept ordinal value) r

/-- The log of a document that was scored. -/
def record (r : LogRecorder) (hit : Nat) (scored : Scored) : Checked LogRecorder := do
  let r ← scored.extras.foldlM (fun r (key, value) => addExtra r key (.ofFloat32 value))
    (r.nextDoc hit)
  r.acceptAll ((scored.features.map (·.matched)).getD [])

/-- The logs of documents that were visited. -/
def recordVisits (r : LogRecorder) (visits : List (Nat × Nat × Scored)) : Checked LogRecorder :=
  visits.foldlM (fun r (hit, _, scored) => r.record hit scored) r

/-- The logs of all hits so far, which the recorder then forgets. -/
def take (r : LogRecorder) : List (Nat × List LogEntry) × LogRecorder :=
  (r.close.logs, { r.close with logs := [] })

end LogRecorder

end FeatureRank
