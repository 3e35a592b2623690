import FeatureRank.Proofs.Json.Members
import FeatureRank.Proofs.Log.Recorder

/-! # Calls — a recorder, and the same with its pieces apart

    Whoever holds a recorder opens logs, leaves values in them, asks for what is logged
    beside the values, and takes the logs (`LogCall`).  A recorder keeps what is beside
    the values with the log that is open, so that it cannot outlive it.  Kept apart
    and written in place, it is closed together with the log all the same: the pieces
    answer every call as the recorder does and are left as its pieces are
    (`LogCall.perform_ends`). -/

namespace FeatureRank

/-- A call to a recorder. -/
inductive LogCall where
  | nextDoc (hit : Nat)
  | accept (ordinal : Nat) (value : Float32)
  /-- what is logged beside the values is asked for, and members are put there, perhaps none -/
  | extra (members : List (String × Json))
  | take

/-! ## Calls to a recorder -/

namespace LogRecorder

/-- What is logged beside the values is asked for: it is there from then on. -/
def askExtra (r : LogRecorder) : Checked LogRecorder :=
  match r.current with
  | none => .error .extraBeforeHit
  | some log => .ok (r.withOpen { log with extra := some (log.extra.getD []) })

/-- The recorder after a call, and the logs that the call gives back. -/
def respond (r : LogRecorder) : LogCall → Checked (LogRecorder × List (Nat × List LogEntry))
  | .nextDoc hit => return (r.nextDoc hit, [])
  | .accept ordinal value => return (← r.accept ordinal value, [])
  | .extra members => do
    let r ← r.askExtra
    return (← members.foldlM (fun r (key, value) => r.addExtra key value) r, [])
  | .take => return (r.take.2, r.take.1)

/-- The recorder after a call; one that faults leaves it as it is. -/
def next (r : LogRecorder) (call : LogCall) : LogRecorder :=
  match r.respond call with
  | .ok (r, _) => r
  | .error _ => r

def after (r : LogRecorder) (calls : List LogCall) : LogRecorder := calls.foldl next r

/-- Asking first adds nothing to leaving a value. -/
theorem respond_extra_singleton (r : LogRecorder) (key : String) (value : Json) :
    r.respond (.extra [(key, value)]) = (r.addExtra key value).map (·, []) := by
  obtain ⟨features, missingAsZero, current, logs⟩ := r
  cases current with
  | none => rfl
  | some log => rfl

end LogRecorder

/-! ## The pieces -/

/-- The pieces of a recorder: the open log with the entries of its features, what is
    logged beside them, and the finished logs. -/
structure LogPieces where
  features : List String
  missingAsZero : Bool
  current : Option (Nat × List LogEntry)
  extra : Option (List (String × Json))
  logs : List (Nat × List LogEntry)

/-- A computation on the pieces in place; a fault keeps what was written before it. -/
abbrev OnPieces := ExceptT Fault (StateM LogPieces)

namespace OnPieces

variable {α β : Type}

/-- The outcome, and the pieces that are left. -/
def runOn (m : OnPieces α) (p : LogPieces) : Except Fault α × LogPieces := (ExceptT.run m).run p

variable {m : OnPieces α} {f : α → OnPieces β} {p between : LogPieces}

/-- A sequence goes on from the pieces that its first step leaves. -/
theorem runOn_bind_of_ok {a : α} (h : m.runOn p = (.ok a, between)) :
    (m >>= f).runOn p = (f a).runOn between := by
  show (ExceptT.bindCont f (m.runOn p).1).run (m.runOn p).2 = _
  rw [h]
  rfl

/-- A sequence leaves the pieces that its first step leaves when this faults. -/
theorem runOn_bind_of_error {fault : Fault} (h : m.runOn p = (.error fault, between)) :
    (m >>= f).runOn p = (.error fault, between) := by
  show (ExceptT.bindCont f (m.runOn p).1).run (m.runOn p).2 = _
  rw [h]
  rfl

end OnPieces

namespace LogPieces

/-- The entries of a log without values. -/
def rebuild (p : LogPieces) : List LogEntry :=
  p.features.map fun name => ⟨name, if p.missingAsZero then some (.score 0.0) else none⟩

/-- The open log is closed, with what is logged beside its values last. -/
def flush : OnPieces Unit := do
  match ← modifyGet fun p => (p.current, { p with current := none }) with
  | none => return
  | some (hit, log) =>
    let extra ← modifyGet fun p => (p.extra, { p with extra := none })
    let log := log ++ (extra.map fun values => ⟨LogEntry.extraName, some (.extra values)⟩).toList
    modify fun p => { p with logs := p.logs ++ [(hit, log)] }

def nextDoc (hit : Nat) : OnPieces Unit := do
  flush
  modify fun p => { p with current := some (hit, p.rebuild) }

def accept (ordinal : Nat) (value : Float32) : OnPieces Unit := do
  match (← get).current with
  | none => throw .valueBeforeHit
  | some (hit, log) =>
    if ordinal < log.length then
      modify fun p => { p with current := some (hit,
        log.modify ordinal fun entry => { entry with value := some (.score value) }) }
    else throw .noEntry

def askExtra : OnPieces Unit := do
  if (← get).current.isNone then throw .extraBeforeHit
  modify fun p => { p with extra := some (p.extra.getD []) }

/-- A value is put beside those of the features, where it was asked for. -/
def putExtra (key : String) (value : Json) : OnPieces Unit :=
  modify fun p => { p with extra := p.extra.map (Json.put key value) }

def take : OnPieces (List (Nat × List LogEntry)) := do
  flush
  modifyGet fun p => (p.logs, { p with logs := [] })

end LogPieces

/-- A call in place, and the logs that it gives back. -/
def LogCall.perform : LogCall → OnPieces (List (Nat × List LogEntry))
  | .nextDoc hit => do
    LogPieces.nextDoc hit
    return []
  | .accept ordinal value => do
    LogPieces.accept ordinal value
    return []
  | .extra members => do
    LogPieces.askExtra
    members.forM fun (key, value) => LogPieces.putExtra key value
    return []
  | .take => LogPieces.take

/-- The pieces after calls in place, whatever a fault leaves of them. -/
def LogPieces.after (p : LogPieces) (calls : List LogCall) : LogPieces :=
  calls.foldl (fun p call => (call.perform.runOn p).2) p

/-! ## A recorder taken apart -/

namespace LogRecorder

/-- The entries of the features in a log. -/
def featureEntries (r : LogRecorder) (log : OpenLog) : List LogEntry :=
  (r.features.zip log.values).map fun (name, value) => ⟨name, r.reported value⟩

/-- The pieces of a recorder. -/
def pieces (r : LogRecorder) : LogPieces where
  features := r.features
  missingAsZero := r.missingAsZero
  current := r.current.map fun log => (log.hit, r.featureEntries log)
  extra := r.current.bind (·.extra)
  logs := r.logs

/-- A recorder whose open log has a place for each feature. -/
def Sized (r : LogRecorder) : Prop :=
  ∀ log, r.current = some log → log.values.length = r.featureCount

/-- How a computation in place ends that does what was done to the recorder. -/
def ends {α : Type} (r : LogRecorder) : Checked (LogRecorder × α) → Except Fault α × LogPieces
  | .ok (r, a) => (.ok a, r.pieces)
  | .error fault => (.error fault, r.pieces)

variable {r : LogRecorder}

theorem featureEntries_fresh (r : LogRecorder) (hit : Nat) :
    r.featureEntries ⟨hit, List.replicate r.featureCount none, none⟩ = r.pieces.rebuild := by
  have hnames : ∀ names : List String,
      (names.zip (List.replicate names.length none)).map
          (fun x => (⟨x.1, r.reported x.2⟩ : LogEntry))
        = names.map fun name => ⟨name, r.reported none⟩ := by
    intro names
    induction names with
    | nil => rfl
    | cons name rest ih =>
        rw [List.length_cons, List.replicate_succ, List.zip_cons_cons, List.map_cons,
          List.map_cons, ih]
  exact hnames r.features

theorem featureEntries_set (r : LogRecorder) (log : OpenLog) (ordinal : Nat) (value : Float32) :
    r.featureEntries { log with values := log.values.set ordinal (some value) }
      = (r.featureEntries log).modify ordinal fun entry =>
          { entry with value := some (.score value) } := by
  have hzip : ∀ (names : List String) (values : List (Option Float32)) (i : Nat),
      (names.zip (values.set i (some value))).map (fun x => (⟨x.1, r.reported x.2⟩ : LogEntry))
        = ((names.zip values).map fun x => (⟨x.1, r.reported x.2⟩ : LogEntry)).modify i
            fun entry => { entry with value := some (.score value) } := by
    intro names
    induction names with
    | nil => intro values i; simp
    | cons name rest ih =>
        intro values i
        cases values with
        | nil => simp
        | cons first others =>
            cases i with
            | zero => rfl
            | succ i => simpa using ih others i
  exact hzip r.features log.values ordinal

theorem length_featureEntries {log : OpenLog} (h : log.values.length = r.featureCount) :
    (r.featureEntries log).length = r.featureCount := by
  rw [featureEntries, List.length_map, List.length_zip, h]
  exact Nat.min_self _

/-! ## Call by call -/

theorem runOn_flush (r : LogRecorder) :
    LogPieces.flush.runOn r.pieces = (.ok (), r.close.pieces) := by
  obtain ⟨features, missingAsZero, current, logs⟩ := r
  cases current with
  | none => rfl
  | some log => rfl

theorem pieces_nextDoc (r : LogRecorder) (hit : Nat) :
    (r.nextDoc hit).pieces
      = { r.close.pieces with current := some (hit, r.close.pieces.rebuild), extra := none } := by
  have hcount : r.close.featureCount = r.featureCount := congrArg List.length (features_close r)
  rw [← featureEntries_fresh r.close hit, hcount]
  rfl

/-- Nothing is logged beside values when no log is open. -/
theorem extra_pieces_close (r : LogRecorder) : r.close.pieces.extra = none := by
  obtain ⟨features, missingAsZero, current, logs⟩ := r
  cases current with
  | none => rfl
  | some log => rfl

theorem runOn_nextDoc (r : LogRecorder) (hit : Nat) :
    (LogPieces.nextDoc hit).runOn r.pieces = (.ok (), (r.nextDoc hit).pieces) := by
  rw [pieces_nextDoc, ← extra_pieces_close r]
  exact OnPieces.runOn_bind_of_ok (runOn_flush r)

/-- A value is accepted for the features of the open log. -/
theorem runOn_accept (h : r.Sized) (ordinal : Nat) (value : Float32) :
    (LogPieces.accept ordinal value).runOn r.pieces
      = r.ends ((r.accept ordinal value).map (·, ())) := by
  obtain ⟨features, missingAsZero, current, logs⟩ := r
  cases current with
  | none => rfl
  | some log =>
      let r : LogRecorder := ⟨features, missingAsZero, some log, logs⟩
      have hlength : (r.featureEntries log).length = r.featureCount :=
        length_featureEntries (h log rfl)
      let accepted : LogRecorder :=
        r.withOpen { log with values := log.values.set ordinal (some value) }
      have haccept : r.accept ordinal value
          = if ordinal < r.featureCount then .ok accepted else .error .noEntry := rfl
      have hrun : (LogPieces.accept ordinal value).runOn r.pieces
          = OnPieces.runOn (if ordinal < (r.featureEntries log).length then
              modify fun p => { p with current := some (log.hit,
                (r.featureEntries log).modify ordinal
                  fun entry => { entry with value := some (.score value) }) }
            else throw .noEntry) r.pieces := rfl
      rw [haccept, hrun, hlength, ← featureEntries_set]
      by_cases hlt : ordinal < r.featureCount
      · rw [if_pos hlt, if_pos hlt]
        rfl
      · rw [if_neg hlt, if_neg hlt]
        rfl

theorem runOn_putExtras (members : List (String × Json)) :
    ∀ p : LogPieces, (members.forM fun (key, value) => LogPieces.putExtra key value).runOn p
      = (.ok (), { p with extra := p.extra.map (Json.putAll · members) }) := by
  induction members with
  | nil =>
      intro p
      obtain ⟨_, _, _, extra, _⟩ := p
      cases extra with
      | none => rfl
      | some extra => rfl
  | cons first rest ih =>
      intro p
      have hfirst : (LogPieces.putExtra first.1 first.2).runOn p
          = (.ok (), { p with extra := p.extra.map (Json.put first.1 first.2) }) := rfl
      refine (OnPieces.runOn_bind_of_ok hfirst).trans ((ih _).trans ?_)
      rw [Option.map_map]
      rfl

theorem addExtras_withOpen (members : List (String × Json)) (r : LogRecorder) (log : OpenLog) :
    ∀ extra : List (String × Json),
      members.foldlM (fun r (key, value) => addExtra r key value)
          (r.withOpen { log with extra := some extra })
        = .ok (r.withOpen { log with extra := some (Json.putAll extra members) }) := by
  induction members with
  | nil => exact fun _ => rfl
  | cons first rest ih =>
      intro extra
      exact bind_eq_ok.mpr ⟨_, rfl, ih (Json.put first.1 first.2 extra)⟩

/-- What is asked for is there, with what was put before and what is put now. -/
theorem respond_extra {log : OpenLog} (hlog : r.current = some log)
    (members : List (String × Json)) :
    r.respond (.extra members) = .ok (r.withOpen
      { log with extra := some (Json.putAll (log.extra.getD []) members) }, []) := by
  have hask : r.askExtra = .ok (r.withOpen { log with extra := some (log.extra.getD []) }) := by
    rw [askExtra, hlog]
  exact bind_eq_ok.mpr ⟨_, hask, bind_eq_ok.mpr ⟨_, addExtras_withOpen members r log _, rfl⟩⟩

/-- **Calls in place do what the recorder does.** -/
theorem perform_ends (h : r.Sized) (call : LogCall) :
    call.perform.runOn r.pieces = r.ends (r.respond call) := by
  cases call with
  | nextDoc hit => exact OnPieces.runOn_bind_of_ok (runOn_nextDoc r hit)
  | accept ordinal value =>
      have haccept := runOn_accept h ordinal value
      show (LogPieces.accept ordinal value >>= fun _ => pure []).runOn r.pieces
        = r.ends (r.accept ordinal value >>= fun r => pure (r, []))
      cases hr : r.accept ordinal value with
      | ok r' =>
          rw [hr] at haccept
          exact OnPieces.runOn_bind_of_ok haccept
      | error fault =>
          rw [hr] at haccept
          exact OnPieces.runOn_bind_of_error haccept
  | extra members =>
      obtain ⟨features, missingAsZero, current, logs⟩ := r
      cases current with
      | none => rfl
      | some log =>
          let r : LogRecorder := ⟨features, missingAsZero, some log, logs⟩
          have hask : LogPieces.askExtra.runOn r.pieces
              = (.ok (), { r.pieces with extra := some (log.extra.getD []) }) := rfl
          rw [respond_extra rfl]
          exact (OnPieces.runOn_bind_of_ok hask).trans
            (OnPieces.runOn_bind_of_ok (runOn_putExtras members _))
  | take => exact OnPieces.runOn_bind_of_ok (runOn_flush r)

end LogRecorder

end FeatureRank
