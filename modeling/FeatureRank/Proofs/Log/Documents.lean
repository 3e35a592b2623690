import Mathlib.Data.List.DropRight
import FeatureRank.Proofs.Log.Calls

/-! # Documents — a recorder keeps them apart

    What a recorder gives back is read off the calls that were made to it.  Since the
    logs were last taken (`LogCall.sinceTake`) each call that opens a document is
    followed by the calls that belong to it (`LogCall.documents`), and the log of the
    document tells of these and of nothing else (`LogRecorder.Tells`).

    The state after any calls is a function of those documents (`LogRecorder.told`): all
    but the last are finished, and the last one is open.  One call changes the documents
    as it changes the recorder (`LogRecorder.next_told`), so this holds after every
    sequence of calls (`LogRecorder.after_eq`), those that fault among them, and with it
    what every call answers (`LogRecorder.documents_apart`). -/

namespace FeatureRank

/-! ## What was called for a document -/

namespace LogCall

/-- The hit of the document that a call opens. -/
def hit? : LogCall → Option Nat
  | .nextDoc hit => some hit
  | .accept .. | .extra _ | .take => none

def isTake : LogCall → Bool
  | .take => true
  | .nextDoc _ | .accept .. | .extra _ => false

def isExtra : LogCall → Bool
  | .extra _ => true
  | .nextDoc _ | .accept .. | .take => false

/-- The value that a call leaves, with its ordinal. -/
def value? : LogCall → Option (Nat × Float32)
  | .accept ordinal value => some (ordinal, value)
  | .nextDoc _ | .extra _ | .take => none

/-- What a call puts beside the values. -/
def members : LogCall → List (String × Json)
  | .extra members => members
  | .nextDoc _ | .accept .. | .take => []

/-- The calls since the logs were last taken. -/
def sinceTake (calls : List LogCall) : List LogCall := calls.rtakeWhile fun call => !call.isTake

/-- The calls up to the next one that opens a document. -/
def untilNext (calls : List LogCall) : List LogCall := calls.takeWhile (·.hit?.isNone)

/-- The documents that are opened, each with the calls from there to the next one. -/
def documents : List LogCall → List (Nat × List LogCall)
  | [] => []
  | call :: rest => (call.hit?.map fun hit => (hit, untilNext rest)).toList ++ documents rest

/-- A call added to those of the last document, if there is one. -/
def addTo (docs : List (Nat × List LogCall)) (call : LogCall) : List (Nat × List LogCall) :=
  docs.dropLast ++ docs.getLast?.toList.map fun d => (d.1, d.2 ++ [call])

@[simp] theorem addTo_nil (call : LogCall) : addTo [] call = [] := rfl

@[simp] theorem addTo_concat (docs : List (Nat × List LogCall)) (d : Nat × List LogCall)
    (call : LogCall) : addTo (docs ++ [d]) call = docs ++ [(d.1, d.2 ++ [call])] := by
  simp [addTo]

theorem addTo_cons {docs : List (Nat × List LogCall)} (h : docs ≠ []) (d : Nat × List LogCall)
    (call : LogCall) : addTo (d :: docs) call = d :: addTo docs call := by
  obtain rfl | ⟨before, last, rfl⟩ := List.eq_nil_or_concat docs
  · exact absurd rfl h
  · rw [List.concat_eq_append, addTo_concat, ← List.cons_append, addTo_concat, List.cons_append]

theorem documents_eq_nil {calls : List LogCall} :
    documents calls = [] ↔ ∀ call ∈ calls, call.hit? = none := by
  induction calls with
  | nil => simp [documents]
  | cons first rest ih => simp [documents, ih]

theorem untilNext_of_nil {calls : List LogCall} (h : documents calls = []) :
    untilNext calls = calls :=
  List.takeWhile_eq_self_iff.mpr fun call hcall =>
    Option.isNone_iff_eq_none.mpr (documents_eq_nil.mp h call hcall)

theorem untilNext_append_of_nil {calls : List LogCall} (h : documents calls = [])
    (more : List LogCall) : untilNext (calls ++ more) = calls ++ untilNext more :=
  List.takeWhile_append_of_pos fun call hcall =>
    Option.isNone_iff_eq_none.mpr (documents_eq_nil.mp h call hcall)

theorem untilNext_append_of_ne_nil {calls : List LogCall} (h : documents calls ≠ [])
    (more : List LogCall) : untilNext (calls ++ more) = untilNext calls := by
  induction calls with
  | nil => exact absurd rfl h
  | cons first rest ih =>
      cases hfirst : first.hit? with
      | some hit => simp [untilNext, hfirst]
      | none =>
          rw [documents, hfirst] at h
          have hrest := ih h
          simp only [untilNext] at hrest
          simp [untilNext, hfirst, hrest]

/-- A call that opens a document is followed by none yet. -/
theorem documents_concat_of_some {call : LogCall} {hit : Nat} (h : call.hit? = some hit)
    (calls : List LogCall) : documents (calls ++ [call]) = documents calls ++ [(hit, [])] := by
  have hspan : untilNext [call] = [] := by simp [untilNext, h]
  induction calls with
  | nil => simp [documents, untilNext, h]
  | cons first rest ih =>
      have hrest : untilNext (rest ++ [call]) = untilNext rest := by
        by_cases hnone : documents rest = []
        · rw [untilNext_append_of_nil hnone, hspan, untilNext_of_nil hnone, List.append_nil]
        · exact untilNext_append_of_ne_nil hnone [call]
      rw [List.cons_append, documents, documents, ih, hrest, List.append_assoc]

/-- Another call belongs to the document that is open. -/
theorem documents_concat_of_none {call : LogCall} (h : call.hit? = none) (calls : List LogCall) :
    documents (calls ++ [call]) = addTo (documents calls) call := by
  have hspan : untilNext [call] = [call] := by simp [untilNext, h]
  induction calls with
  | nil => simp [documents, h]
  | cons first rest ih =>
      rw [List.cons_append, documents, documents, ih]
      cases hfirst : first.hit? with
      | none => rfl
      | some hit =>
          by_cases hnone : documents rest = []
          · rw [untilNext_append_of_nil hnone, hspan, untilNext_of_nil hnone, hnone]
            rfl
          · rw [untilNext_append_of_ne_nil hnone]
            exact (addTo_cons hnone _ call).symm

/-- The documents once a call was made. -/
def note (docs : List (Nat × List LogCall)) : LogCall → List (Nat × List LogCall)
  | .nextDoc hit => docs ++ [(hit, [])]
  | .take => []
  | .accept ordinal value => addTo docs (.accept ordinal value)
  | .extra members => addTo docs (.extra members)

/-- **One more call** changes the documents since the logs were last taken. -/
theorem documents_sinceTake_concat (calls : List LogCall) (call : LogCall) :
    documents (sinceTake (calls ++ [call])) = note (documents (sinceTake calls)) call := by
  rw [sinceTake, List.rtakeWhile_concat]
  cases call with
  | nextDoc hit => exact documents_concat_of_some rfl _
  | accept ordinal value => exact documents_concat_of_none rfl _
  | extra members => exact documents_concat_of_none rfl _
  | take => rfl

/-- The values that calls leave, by ordinal. -/
def values (calls : List LogCall) : List (Nat × Float32) := calls.filterMap (·.value?)

/-- What calls put beside the values. -/
def inserted (calls : List LogCall) : List (String × Json) := calls.flatMap (·.members)

/-- Whether calls ask for what is logged beside the values. -/
def asksExtra (calls : List LogCall) : Bool := calls.any (·.isExtra)

theorem asksExtra_iff {calls : List LogCall} :
    asksExtra calls = true ↔ ∃ members, .extra members ∈ calls := by
  rw [asksExtra, List.any_eq_true]
  constructor
  · rintro ⟨call, hcall, hextra⟩
    cases call with
    | extra members => exact ⟨members, hcall⟩
    | _ => exact nomatch hextra
  · rintro ⟨members, hmembers⟩
    exact ⟨_, hmembers, rfl⟩

theorem inserted_of_not_asksExtra {calls : List LogCall} (h : asksExtra calls = false) :
    inserted calls = [] := by
  induction calls with
  | nil => rfl
  | cons first rest ih =>
      rw [asksExtra, List.any_cons, Bool.or_eq_false_iff] at h
      cases first with
      | extra members => exact nomatch h.1
      | _ => exact ih h.2

end LogCall

/-! ## What a recorder tells of a document -/

namespace LogRecorder

open LogCall

/-- Places without values, with values left there one after the other. -/
def valuesOf (size : Nat) (pairs : List (Nat × Float32)) : List (Option Float32) :=
  pairs.foldl (fun values x => values.set x.1 (some x.2)) (List.replicate size none)

theorem valuesOf_concat (size : Nat) (pairs : List (Nat × Float32)) (last : Nat × Float32) :
    valuesOf size (pairs ++ [last]) = (valuesOf size pairs).set last.1 (some last.2) :=
  List.foldl_append

theorem length_valuesOf (size : Nat) (pairs : List (Nat × Float32)) :
    (valuesOf size pairs).length = size := by
  induction pairs using List.reverseRecOn with
  | nil => exact List.length_replicate
  | append_singleton pairs last ih => rw [valuesOf_concat, List.length_set, ih]

/-- **A place has the latest value that was left there.** -/
theorem getElem?_valuesOf {size i : Nat} (h : i < size) (pairs : List (Nat × Float32)) :
    (valuesOf size pairs)[i]? = some (latest i pairs) := by
  induction pairs using List.reverseRecOn with
  | nil => exact List.getElem?_replicate_of_lt h
  | append_singleton pairs last ih =>
      rw [valuesOf_concat, List.getElem?_set, length_valuesOf, latest_concat, ih]
      by_cases hlast : last.1 = i
      · rw [if_pos hlast, if_pos hlast.symm, if_pos (hlast ▸ h)]
      · rw [if_neg hlast, if_neg (Ne.symm hlast)]

/-- The log of a document after the calls that belong to it. -/
def openLog (r : LogRecorder) (d : Nat × List LogCall) : OpenLog where
  hit := d.1
  values := valuesOf r.featureCount (values d.2)
  extra := if asksExtra d.2 then some (Json.putAll [] (inserted d.2)) else none

/-- The finished log of a document. -/
def finished (r : LogRecorder) (d : Nat × List LogCall) : Nat × List LogEntry :=
  (d.1, r.entries (r.openLog d))

/-- The recorder that was called for some documents: the last one is open. -/
def told (r : LogRecorder) (docs : List (Nat × List LogCall)) : LogRecorder where
  features := r.features
  missingAsZero := r.missingAsZero
  current := docs.getLast?.map r.openLog
  logs := docs.dropLast.map r.finished

variable {r : LogRecorder}

theorem told_sized (r : LogRecorder) (docs : List (Nat × List LogCall)) : (r.told docs).Sized := by
  intro log hlog
  obtain ⟨d, -, rfl⟩ := Option.map_eq_some_iff.mp hlog
  exact length_valuesOf _ _

theorem told_concat (r : LogRecorder) (docs : List (Nat × List LogCall)) (d : Nat × List LogCall) :
    r.told (docs ++ [d])
      = ⟨r.features, r.missingAsZero, some (r.openLog d), docs.map r.finished⟩ := by
  simp [told]

theorem close_told (r : LogRecorder) (docs : List (Nat × List LogCall)) :
    (r.told docs).close = ⟨r.features, r.missingAsZero, none, docs.map r.finished⟩ := by
  obtain rfl | ⟨before, d, rfl⟩ := List.eq_nil_or_concat docs
  · rfl
  · rw [List.concat_eq_append, told_concat, List.map_append]
    rfl

theorem openLog_accept (r : LogRecorder) (d : Nat × List LogCall) (ordinal : Nat)
    (value : Float32) : r.openLog (d.1, d.2 ++ [.accept ordinal value])
      = { r.openLog d with values := (r.openLog d).values.set ordinal (some value) } := by
  have hvalues : values (d.2 ++ [.accept ordinal value]) = values d.2 ++ [(ordinal, value)] := by
    simp [values, value?]
  have hasked : asksExtra (d.2 ++ [.accept ordinal value]) = asksExtra d.2 := by
    simp [asksExtra, isExtra]
  have hinserted : inserted (d.2 ++ [.accept ordinal value]) = inserted d.2 := by
    simp [inserted, members]
  simp only [openLog, hvalues, hasked, hinserted, valuesOf_concat]

theorem openLog_extra (r : LogRecorder) (d : Nat × List LogCall) (more : List (String × Json)) :
    r.openLog (d.1, d.2 ++ [.extra more])
      = { r.openLog d with extra := some (Json.putAll ((r.openLog d).extra.getD []) more) } := by
  have hvalues : values (d.2 ++ [.extra more]) = values d.2 := by simp [values, value?]
  have hasked : asksExtra (d.2 ++ [.extra more]) = true := by simp [asksExtra, isExtra]
  have hinserted : inserted (d.2 ++ [.extra more]) = inserted d.2 ++ more := by
    simp [inserted, members]
  have hbefore : (r.openLog d).extra.getD [] = Json.putAll [] (inserted d.2) := by
    rw [openLog]
    cases h : asksExtra d.2 with
    | true => rfl
    | false =>
        rw [inserted_of_not_asksExtra h]
        rfl
  rw [hbefore, ← Json.putAll_append]
  simp only [openLog, hvalues, hasked, hinserted, if_true]

/-! ## One call -/

variable {docs : List (Nat × List LogCall)} {d : Nat × List LogCall}

theorem respond_nextDoc (r : LogRecorder) (docs : List (Nat × List LogCall)) (hit : Nat) :
    (r.told docs).respond (.nextDoc hit) = .ok (r.told (docs ++ [(hit, [])]), []) := by
  have hopen : (r.told docs).nextDoc hit = r.told (docs ++ [(hit, [])]) := by
    rw [nextDoc, close_told, told_concat]
    rfl
  rw [← hopen]
  rfl

theorem accept_told (r : LogRecorder) (docs : List (Nat × List LogCall))
    (d : Nat × List LogCall) (ordinal : Nat) (value : Float32) :
    (r.told (docs ++ [d])).accept ordinal value
      = if ordinal < r.featureCount then
          .ok (r.told (docs ++ [(d.1, d.2 ++ [.accept ordinal value])]))
        else .error .noEntry := by
  rw [told_concat, told_concat, openLog_accept]
  rfl

theorem respond_accept {ordinal : Nat} (h : ordinal < r.featureCount) (value : Float32) :
    (r.told (docs ++ [d])).respond (.accept ordinal value)
      = .ok (r.told (docs ++ [(d.1, d.2 ++ [.accept ordinal value])]), []) := by
  have haccept := accept_told r docs d ordinal value
  rw [if_pos h] at haccept
  exact bind_eq_ok.mpr ⟨_, haccept, rfl⟩

theorem respond_accept_beyond {ordinal : Nat} (h : r.featureCount ≤ ordinal) (value : Float32) :
    (r.told (docs ++ [d])).respond (.accept ordinal value) = .error .noEntry := by
  rw [respond, accept_told, if_neg (Nat.not_lt.mpr h)]
  rfl

theorem respond_extra_told (r : LogRecorder) (more : List (String × Json)) :
    (r.told (docs ++ [d])).respond (.extra more)
      = .ok (r.told (docs ++ [(d.1, d.2 ++ [.extra more])]), []) := by
  have htold : r.told (docs ++ [(d.1, d.2 ++ [.extra more])]) = (r.told (docs ++ [d])).withOpen
      { r.openLog d with extra := some (Json.putAll ((r.openLog d).extra.getD []) more) } := by
    rw [told_concat, told_concat, openLog_extra]
    rfl
  rw [htold]
  exact respond_extra (by rw [told_concat]) more

theorem respond_take (r : LogRecorder) (docs : List (Nat × List LogCall)) :
    (r.told docs).respond .take = .ok (r.told [], docs.map r.finished) := by
  show Except.ok ({ (r.told docs).close with logs := [] }, (r.told docs).close.logs) = _
  rw [close_told]
  rfl

/-- A value beyond the features is not told of. -/
theorem told_accept_beyond {ordinal : Nat} (h : r.featureCount ≤ ordinal) (value : Float32) :
    r.told (docs ++ [(d.1, d.2 ++ [.accept ordinal value])]) = r.told (docs ++ [d]) := by
  have hbeyond : (r.openLog d).values.length ≤ ordinal := (length_valuesOf _ _).trans_le h
  rw [told_concat, told_concat, openLog_accept, List.set_eq_of_length_le hbeyond]

theorem next_of_ok {call : LogCall} {s : LogRecorder} {logs : List (Nat × List LogEntry)}
    (h : r.respond call = .ok (s, logs)) : r.next call = s := by
  rw [next, h]

theorem next_of_error {call : LogCall} {fault : Fault} (h : r.respond call = .error fault) :
    r.next call = r := by
  rw [next, h]

/-- **A call changes the recorder as it changes the documents.** -/
theorem next_told (r : LogRecorder) (docs : List (Nat × List LogCall)) (call : LogCall) :
    (r.told docs).next call = r.told (note docs call) := by
  cases call with
  | nextDoc hit => exact next_of_ok (respond_nextDoc r docs hit)
  | take => exact next_of_ok (respond_take r docs)
  | accept ordinal value =>
      obtain rfl | ⟨before, d, rfl⟩ := List.eq_nil_or_concat docs
      · rfl
      · rw [List.concat_eq_append, note, addTo_concat]
        by_cases hlt : ordinal < r.featureCount
        · exact next_of_ok (respond_accept hlt value)
        · rw [told_accept_beyond (Nat.not_lt.mp hlt)]
          exact next_of_error (respond_accept_beyond (Nat.not_lt.mp hlt) value)
  | extra more =>
      obtain rfl | ⟨before, d, rfl⟩ := List.eq_nil_or_concat docs
      · rfl
      · rw [List.concat_eq_append, note, addTo_concat]
        exact next_of_ok (respond_extra_told r more)

/-! ## All calls -/

/-- **What a recorder holds is what it was called for** since the logs were last taken. -/
theorem after_eq (r : LogRecorder) (calls : List LogCall) :
    (r.told []).after calls = r.told (documents (sinceTake calls)) := by
  -- from the end, as the last call is the one that the recorder answers
  induction calls using List.reverseRecOn with
  | nil => rfl
  | append_singleton calls call ih =>
      rw [documents_sinceTake_concat, ← next_told, ← ih]
      exact List.foldl_append

theorem ends_snd (r : LogRecorder) (call : LogCall) :
    (r.ends (r.respond call)).2 = (r.next call).pieces := by
  rw [next]
  cases r.respond call with
  | ok result => rfl
  | error fault => rfl

/-- The pieces are those of the recorder after any calls. -/
theorem pieces_after (r : LogRecorder) (calls : List LogCall) :
    (r.told []).pieces.after calls = ((r.told []).after calls).pieces := by
  induction calls using List.reverseRecOn with
  | nil => rfl
  | append_singleton calls call ih =>
      have hsized : ((r.told []).after calls).Sized := by
        rw [after_eq]
        exact told_sized r _
      have hlast : (r.told []).pieces.after (calls ++ [call])
          = (call.perform.runOn ((r.told []).pieces.after calls)).2 := List.foldl_append
      have hnext : (r.told []).after (calls ++ [call]) = ((r.told []).after calls).next call :=
        List.foldl_append
      rw [hlast, hnext, ih, perform_ends hsized, ends_snd]

/-! ## The logs -/

/-- What the log of a document tells: for each feature the latest value that was left for
    it, or what is reported without one, and last, if it was asked for, what was put beside
    the values, under each key the latest. -/
structure Tells (r : LogRecorder) (calls : List LogCall) (log : List LogEntry) : Prop where
  feature : ∀ (i : Nat) (name : String), r.features[i]? = some name →
    log[i]? = some ⟨name, r.reported (latest i (values calls))⟩
  unasked : (∀ members, .extra members ∉ calls) → log.length = r.featureCount
  asked : (∃ members, .extra members ∈ calls) → log.length = r.featureCount + 1 ∧
    ∃ members, log[r.featureCount]? = some ⟨LogEntry.extraName, some (.extra members)⟩ ∧
      Json.Ordered members ∧ ∀ key, members.lookup key = latest key (inserted calls)

/-- **A finished log tells of the calls for its document.** -/
theorem tells_finished (r : LogRecorder) (d : Nat × List LogCall) :
    r.Tells d.2 (r.finished d).2 := by
  have hlength : (r.featureEntries (r.openLog d)).length = r.featureCount :=
    length_featureEntries (length_valuesOf _ _)
  have hentries : ∀ {extra : Option (List (String × Json))}, (r.openLog d).extra = extra →
      (r.finished d).2 = r.featureEntries (r.openLog d)
        ++ (extra.map fun values => ⟨LogEntry.extraName, some (.extra values)⟩).toList := by
    rintro extra rfl
    rfl
  constructor
  · intro i name hname
    have hlt : i < r.featureCount := (List.getElem?_eq_some_iff.mp hname).1
    exact entries_getElem? hname (getElem?_valuesOf hlt (values d.2))
  · intro hnone
    have hasked : asksExtra d.2 = false := by
      refine Bool.eq_false_iff.mpr fun h => ?_
      obtain ⟨members, hmembers⟩ := asksExtra_iff.mp h
      exact hnone members hmembers
    have hextra : (r.openLog d).extra = none := by rw [openLog, hasked]; rfl
    rw [hentries hextra, Option.map_none, Option.toList_none, List.append_nil, hlength]
  · intro hsome
    have hextra : (r.openLog d).extra = some (Json.putAll [] (inserted d.2)) := by
      rw [openLog, asksExtra_iff.mpr hsome]
      rfl
    rw [hentries hextra, List.length_append, hlength]
    refine ⟨rfl, Json.putAll [] (inserted d.2), ?_, Json.Ordered.putAll .nil _, fun key => ?_⟩
    · rw [List.getElem?_append_right hlength.le, hlength, Nat.sub_self]
      rfl
    · rw [Json.lookup_putAll]
      exact Option.or_none

/-- Calls that open a document leave a last one. -/
theorem documents_of_nextDoc {calls : List LogCall} (h : ∃ hit, .nextDoc hit ∈ calls) :
    ∃ docs d, documents calls = docs ++ [d] := by
  obtain ⟨hit, hmem⟩ := h
  obtain hnone | ⟨docs, d, hdocs⟩ := List.eq_nil_or_concat (documents calls)
  · exact nomatch documents_eq_nil.mp hnone _ hmem
  · exact ⟨docs, d, hdocs.trans List.concat_eq_append⟩

theorem documents_of_no_nextDoc {calls : List LogCall} (h : ¬∃ hit, .nextDoc hit ∈ calls) :
    documents calls = [] := by
  refine documents_eq_nil.mpr fun call hcall => ?_
  cases call with
  | nextDoc hit => exact absurd ⟨hit, hcall⟩ h
  | _ => rfl

/-- **Documents are never mixed.**  After any calls, those that fault among them, a
    recorder whose pieces are written in place holds the pieces of one that keeps them
    together, and every call does the same to both; a call that faults changes nothing.
    Opening a document and taking the logs never fault; accepting a value and asking for
    what is logged beside the values do so just when no document was opened since the logs
    were last taken, and accepting also for what is no feature.  Taking the logs gives one
    for each document that was opened since, in order, each with its hit, and it tells of
    the calls from there to the next document and of nothing else. -/
theorem documents_apart (features : List String) (missingAsZero : Bool) (calls : List LogCall) :
    let r : LogRecorder := ⟨features, missingAsZero, none, []⟩
    let p := r.pieces.after calls
    let opened := ∃ hit, .nextDoc hit ∈ sinceTake calls
    (p = (r.after calls).pieces ∧
      ∀ call, call.perform.runOn p = (r.after calls).ends ((r.after calls).respond call)) ∧
    (∀ (call : LogCall) (fault : Fault), (call.perform.runOn p).1 = .error fault →
      (call.perform.runOn p).2 = p) ∧
    (∀ hit, ((LogCall.nextDoc hit).perform.runOn p).1 = .ok []) ∧
    (∀ ordinal value,
      (opened → ordinal < features.length →
        ((LogCall.accept ordinal value).perform.runOn p).1 = .ok []) ∧
      (opened → features.length ≤ ordinal →
        ((LogCall.accept ordinal value).perform.runOn p).1 = .error .noEntry) ∧
      (¬opened → ((LogCall.accept ordinal value).perform.runOn p).1 = .error .valueBeforeHit)) ∧
    (∀ members,
      (opened → ((LogCall.extra members).perform.runOn p).1 = .ok []) ∧
      (¬opened → ((LogCall.extra members).perform.runOn p).1 = .error .extraBeforeHit)) ∧
    ∃ logs, (LogCall.take.perform.runOn p).1 = .ok logs ∧
      List.Forall₂ (fun d log => log.1 = d.1 ∧ r.Tells d.2 log.2)
        (documents (sinceTake calls)) logs := by
  intro r p opened
  have hafter : r.after calls = r.told (documents (sinceTake calls)) := r.after_eq calls
  have hpieces : p = (r.after calls).pieces := r.pieces_after calls
  have hlast : opened → ∃ docs d, documents (sinceTake calls) = docs ++ [d] :=
    documents_of_nextDoc
  have hnone : ¬opened → documents (sinceTake calls) = [] := documents_of_no_nextDoc
  have hends : ∀ call : LogCall,
      call.perform.runOn p = (r.after calls).ends ((r.after calls).respond call) := by
    intro call
    rw [hpieces]
    refine perform_ends ?_ call
    rw [hafter]
    exact told_sized r _
  refine ⟨⟨hpieces, hends⟩, fun call fault hfault => ?_, ?_⟩
  · rw [hends] at hfault ⊢
    rw [hpieces]
    cases hrespond : (r.after calls).respond call with
    | ok result =>
        rw [hrespond] at hfault
        exact nomatch hfault
    | error other => rfl
  simp only [hends, hafter]
  refine ⟨fun hit => ?_, fun ordinal value => ⟨?_, ?_, ?_⟩, fun members => ⟨?_, ?_⟩,
    (documents (sinceTake calls)).map r.finished, ?_, ?_⟩
  · rw [respond_nextDoc]
    rfl
  · intro hopened hlt
    obtain ⟨docs, d, hdocs⟩ := hlast hopened
    rw [hdocs, respond_accept hlt value]
    rfl
  · intro hopened hle
    obtain ⟨docs, d, hdocs⟩ := hlast hopened
    rw [hdocs, respond_accept_beyond hle value]
    rfl
  · intro hnot
    rw [hnone hnot]
    rfl
  · intro hopened
    obtain ⟨docs, d, hdocs⟩ := hlast hopened
    rw [hdocs, respond_extra_told r members]
    rfl
  · intro hnot
    rw [hnone hnot]
    rfl
  · rw [respond_take]
    rfl
  · rw [List.forall₂_map_right_iff]
    exact List.forall₂_same.mpr fun d _ => ⟨rfl, tells_finished r d⟩

/-- Two documents of one hit: a value, a fault and a member under a key for the first, and
    nothing for the second. -/
theorem documents_apart_same_hit :
    let r : LogRecorder := ⟨["title", "body"], true, none, []⟩
    let p := r.pieces.after [.nextDoc 4, .accept 1 2.0, .accept 2 1.0,
      .extra [("key", .null)], .nextDoc 4]
    (LogCall.accept 2 1.0).perform.runOn p = (.error .noEntry, p) ∧
      ∃ first second, (LogCall.take.perform.runOn p).1 = .ok [(4, first), (4, second)] ∧
        first[1]? = some ⟨"body", some (.score 2.0)⟩ ∧ first.length = 3 ∧
        second[1]? = some ⟨"body", some (.score 0.0)⟩ ∧ second.length = 2 := by
  intro r p
  obtain ⟨-, hleft, -, haccept, -, logs, htake, hlogs⟩ := documents_apart ["title", "body"] true
    [.nextDoc 4, .accept 1 2.0, .accept 2 1.0, .extra [("key", .null)], .nextDoc 4]
  have hfault : ((LogCall.accept 2 1.0).perform.runOn p).1 = .error .noEntry :=
    (haccept 2 1.0).2.1 ⟨4, List.mem_cons_self⟩ le_rfl
  let firstCalls : List LogCall := [.accept 1 2.0, .accept 2 1.0, .extra [("key", .null)]]
  replace hlogs : List.Forall₂ _ [(4, firstCalls), (4, [])] logs := hlogs
  obtain ⟨⟨hit, first⟩, rest, ⟨rfl, hfirst⟩, hrest, rfl⟩ := List.forall₂_cons_left_iff.mp hlogs
  obtain ⟨⟨hit, second⟩, none, ⟨rfl, hsecond⟩, hnone, rfl⟩ := List.forall₂_cons_left_iff.mp hrest
  obtain rfl := List.forall₂_nil_left_iff.mp hnone
  have hasked : ∃ members, .extra members ∈ firstCalls :=
    ⟨[("key", .null)], List.mem_cons_of_mem _ (List.mem_cons_of_mem _ List.mem_cons_self)⟩
  exact ⟨Prod.ext hfault (hleft _ _ hfault), first, second, htake,
    hfirst.feature 1 "body" rfl, (hfirst.asked hasked).1, hsecond.feature 1 "body" rfl,
    hsecond.unasked fun _ => List.not_mem_nil⟩

end LogRecorder

end FeatureRank
