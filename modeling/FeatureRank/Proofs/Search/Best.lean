import FeatureRank.Proofs.Search.Partition

/-! # The best hits of a response

    Hits are sorted before the list is cut to its size, spread over their shards to
    be explained and logged, and sorted again.  Nothing is lost or moved on the way:
    without explanations and logs (`SearchHit.bare`) the hits of a response are the
    first of the sorted candidates (`Engine.response_best`).  The order is strict
    where no two hits are of one document (`SearchHit.Outranks`), so it does not
    matter in which order the shards give their hits back. -/

namespace FeatureRank

open Tracked

/-- Items that are taken apart by their keys are all there. -/
theorem flatMap_filter_perm {α κ : Type} [BEq κ] [LawfulBEq κ] (key : α → κ) {keys : List κ}
    (hkeys : keys.Nodup) :
    ∀ {items : List α}, (∀ x ∈ items, key x ∈ keys) →
      (keys.flatMap fun k => items.filter (key · == k)).Perm items := by
  induction keys with
  | nil =>
      intro items hin
      cases items with
      | nil => exact .refl _
      | cons x rest => exact nomatch hin x List.mem_cons_self
  | cons first rest ih =>
      intro items hin
      obtain ⟨hfirst, hrest⟩ := List.nodup_cons.mp hkeys
      -- the items of the other keys are those that the first one leaves
      have hothers : (rest.flatMap fun k => items.filter (key · == k))
          = rest.flatMap fun k => (items.filter (!key · == first)).filter (key · == k) := by
        refine List.flatMap_congr fun k hk => ?_
        rw [List.filter_filter]
        refine List.filter_congr fun x _ => ?_
        cases hx : key x == k with
        | false => rfl
        | true =>
            have hne : (key x == first) = false := by
              rw [beq_iff_eq.mp hx]
              exact beq_false_of_ne fun heq => hfirst (heq ▸ hk)
            rw [hne]
            rfl
      rw [List.flatMap_cons, hothers]
      refine ((ih hrest ?_).append_left _).trans (List.filter_append_perm _ items)
      intro x hx
      obtain ⟨hx, hne⟩ := List.mem_filter.mp hx
      refine (List.mem_cons.mp (hin x hx)).resolve_left fun heq => ?_
      rw [heq, beq_self_eq_true] at hne
      cases hne

/-! ## The order of hits -/

/-- Sorted items of different keys stand in the strict order that the sort refines. -/
theorem pairwise_mergeSort_of_keys {α κ : Type} (le : α → α → Bool) {before : α → α → Prop}
    (htrans : ∀ a b c, le a b = true → le b c = true → le a c = true)
    (htotal : ∀ a b, (le a b || le b a) = true) (key : α → κ)
    (hbefore : ∀ a b, le a b = true → key a ≠ key b → before a b) {items : List α}
    (hkeys : (items.map key).Nodup) : (items.mergeSort le).Pairwise before := by
  have hsorted : (items.mergeSort le).Pairwise fun a b => le a b = true :=
    List.pairwise_mergeSort htrans htotal items
  have hdifferent : (items.mergeSort le).Pairwise fun a b => key a ≠ key b :=
    List.pairwise_map.mp (((List.mergeSort_perm items le).map key).nodup_iff.mpr hkeys)
  exact (hsorted.and hdifferent).imp fun h => hbefore _ _ h.1 h.2

namespace SearchHit

/-- A hit as it is before it is fetched, without an explanation and logs. -/
def bare (hit : SearchHit) : SearchHit := { hit with explanation := none, logs := {} }

/-- Whether a hit stands strictly before another: by score from the greatest down,
    then by shard, then by document. -/
def Outranks (a b : SearchHit) : Prop :=
  Number.orderKey b.bits < Number.orderKey a.bits ∨
    (Number.orderKey a.bits = Number.orderKey b.bits ∧
      (a.shard < b.shard ∨ (a.shard = b.shard ∧ a.doc < b.doc)))

theorem isBefore_iff {a b : SearchHit} :
    isBefore a b = true ↔ Number.orderKey b.bits < Number.orderKey a.bits ∨
      (Number.orderKey a.bits = Number.orderKey b.bits ∧
        (a.shard < b.shard ∨ (a.shard = b.shard ∧ a.doc ≤ b.doc))) := by
  simp only [isBefore, Bool.or_eq_true, Bool.and_eq_true, decide_eq_true_eq, beq_iff_eq]

theorem isBefore_trans {a b c : SearchHit} (hab : isBefore a b = true)
    (hbc : isBefore b c = true) : isBefore a c = true := by
  rw [isBefore_iff] at hab hbc ⊢
  omega

theorem isBefore_total (a b : SearchHit) : (isBefore a b || isBefore b a) = true := by
  rw [Bool.or_eq_true, isBefore_iff, isBefore_iff]
  omega

/-- Of hits of different documents one stands strictly before the other. -/
theorem outranks_of_isBefore {a b : SearchHit} (h : isBefore a b = true)
    (hne : a.place ≠ b.place) : a.Outranks b := by
  have hplaces : ¬(a.shard = b.shard ∧ a.doc = b.doc) := fun heq =>
    hne (Prod.ext heq.1 heq.2)
  unfold Outranks
  rw [isBefore_iff] at h
  omega

theorem Outranks.asymm {a b : SearchHit} (hab : a.Outranks b) (hba : b.Outranks a) : False := by
  unfold Outranks at hab hba
  omega

theorem sort_perm (hits : List SearchHit) : (sort hits).Perm hits :=
  List.mergeSort_perm hits isBefore

/-- **Sorted hits of different documents** stand in a strict order. -/
theorem sort_outranks {hits : List SearchHit} (h : (hits.map (·.place)).Nodup) :
    (sort hits).Pairwise Outranks :=
  pairwise_mergeSort_of_keys isBefore (fun _ _ _ => isBefore_trans) isBefore_total
    (·.place) (fun _ _ => outranks_of_isBefore) h

/-- Hits of different documents in a strict order are the sorted ones. -/
theorem sort_eq_of_perm {hits sorted : List SearchHit} (hperm : hits.Perm sorted)
    (hsorted : sorted.Pairwise Outranks) (hplaces : (hits.map (·.place)).Nodup) :
    sort hits = sorted := by
  have : Std.Antisymm Outranks := ⟨fun _ _ hab hba => (hab.asymm hba).elim⟩
  have : Std.Irrefl Outranks := ⟨fun _ h => h.asymm h⟩
  exact (sort_outranks hplaces).eq_of_mem_iff hsorted fun hit =>
    ((sort_perm hits).trans hperm).mem_iff

/-- The order reads neither explanations nor logs. -/
theorem sort_bare (hits : List SearchHit) : (sort hits).map bare = sort (hits.map bare) :=
  List.map_mergeSort fun _ _ _ _ => rfl

end SearchHit

/-! ## Fetching -/

/-- Logging changes only the logs of hits. -/
theorem ShardRequest.log_unread {α : Type} {f : SearchHit → α}
    (hf : ∀ hit logs, f (SearchHit.withLogs hit logs) = f hit) {r : ShardRequest}
    {searcher : Searcher} {settings : Settings} {hits hits' : List SearchHit}
    (h : (r.log searcher settings hits).Yields hits') : hits'.map f = hits.map f := by
  have hattach : ∀ (name : String) (logs : List (Nat × List LogEntry)) (hits : List SearchHit),
      (attach name logs hits).map f = hits.map f := by
    intro name logs hits
    refine List.ext_getElem? fun k => ?_
    rw [List.getElem?_map, List.getElem?_map, getElem?_attach, Option.map_map]
    exact Option.map_congr fun hit _ => hf hit _
  have hall : ∀ (recorders : List (String × LogRecorder)) (hits : List SearchHit),
      (recorders.foldl (fun hits x => attach x.1 x.2.take.1 hits) hits).map f = hits.map f := by
    intro recorders
    induction recorders with
    | nil => exact fun _ => rfl
    | cons first rest ih =>
        intro hits
        rw [List.foldl_cons, ih, hattach]
  unfold log at h
  split at h
  · rw [yields_pure h]
  · obtain ⟨recorders, -, h⟩ := yields_bind h
    rw [← yields_pure h]
    exact hall recorders hits

namespace Engine

/-- Fetching changes only explanations and logs. -/
theorem fetch_bare {settings : Settings} {global : Option GlobalStatistics} {explain : Bool}
    {shard : Shard} {r : ShardRequest} {hits hits' : List SearchHit}
    (h : (fetch settings global explain shard r hits).Yields hits') :
    hits'.map SearchHit.bare = hits.map SearchHit.bare := by
  obtain ⟨shown, hlog, hshown⟩ := fetch_yields h
  rw [ShardRequest.log_unread (fun _ _ => rfl) hlog]
  refine (map_eq_of_forall₂ (hshown.imp fun hit s hs => ?_)).symm
  rw [hs]
  rfl

/-- What a response is made of. -/
theorem response_yields {e : Engine} {request : SearchRequest} {response : SearchResponse}
    (h : (e.response request).Yields response) :
    ∃ parts after candidates fetched, (e.parts request).Yields parts ∧
      (scoreParts e.settings (e.globalOf request parts) parts).Yields (after, candidates) ∧
      List.Forall₂ (fun part hits =>
        (fetch e.settings (e.globalOf request parts) request.explain part.2.1 part.2.2
          (((SearchHit.sort candidates).take request.size).filter (·.shard == part.1))).Yields hits)
        after fetched ∧
      response = ⟨candidates.length, SearchHit.sort fetched.flatten⟩ := by
  unfold Engine.response at h
  obtain ⟨parts, hparts, h⟩ := yields_bind h
  obtain ⟨⟨after, candidates⟩, hscored, h⟩ := yields_bind h
  obtain ⟨fetched, hfetched, h⟩ := yields_bind h
  exact ⟨parts, after, candidates, fetched, hparts, hscored, yields_mapM hfetched,
    (yields_pure h).symm⟩

/-- The parts of a request are numbered in order. -/
theorem places_parts {e : Engine} {request : SearchRequest} {parts : Parts}
    (h : (e.parts request).Yields parts) : parts.map (·.1) = List.range parts.length := by
  refine List.ext_getElem? fun k => ?_
  rw [List.getElem?_map]
  cases hk : parts[k]? with
  | none => rw [List.getElem?_eq_none (by simpa using hk)]; rfl
  | some part =>
      have hlt := (List.getElem?_eq_some_iff.mp hk).1
      rw [List.getElem?_range hlt, Option.map_some, (parts_yields h hk).1]

/-- Scoring keeps the places of the parts, and finds bare hits at these places. -/
theorem scoreParts_places {settings : Settings} {global : Option GlobalStatistics}
    {parts : Parts} : ∀ {after : Parts} {candidates : List SearchHit},
      (scoreParts settings global parts).Yields (after, candidates) →
      after.map (·.1) = parts.map (·.1) ∧
        ∀ c ∈ candidates, c.shard ∈ parts.map (·.1) ∧ c.bare = c := by
  induction parts with
  | nil =>
      intro after candidates h
      obtain ⟨rfl, rfl⟩ := Prod.mk.inj (yields_pure h)
      exact ⟨rfl, List.forall_mem_nil _⟩
  | cons part rest ih =>
      intro after candidates h
      obtain ⟨place, shard, r⟩ := part
      unfold scoreParts at h
      obtain ⟨⟨r', hits⟩, -, h⟩ := yields_bind h
      obtain ⟨⟨rest', others⟩, hrest, h⟩ := yields_bind h
      obtain ⟨rfl, rfl⟩ := Prod.mk.inj (yields_pure h)
      obtain ⟨hplaces, hothers⟩ := ih hrest
      refine ⟨congrArg (place :: ·) hplaces, fun c hc => ?_⟩
      rcases List.mem_append.mp hc with hc | hc
      · obtain ⟨hit, -, rfl⟩ := List.mem_map.mp hc
        exact ⟨List.mem_cons_self, rfl⟩
      · exact ⟨List.mem_cons_of_mem _ (hothers c hc).1, (hothers c hc).2⟩

/-- The hits of all shards are of different documents when those of each are. -/
theorem scoreParts_nodup {settings : Settings} {global : Option GlobalStatistics}
    {parts : Parts} (hplaces : (parts.map (·.1)).Nodup)
    (hhits : ∀ part ∈ parts, ∀ r' hits,
      (part.2.2.score ⟨part.2.1, global⟩ (settings.under part.1)).Yields (r', hits) →
        (hits.map (·.doc)).Nodup) :
    ∀ {after : Parts} {candidates : List SearchHit},
      (scoreParts settings global parts).Yields (after, candidates) →
      (candidates.map (·.place)).Nodup := by
  induction parts with
  | nil =>
      intro after candidates h
      obtain ⟨-, rfl⟩ := Prod.mk.inj (yields_pure h)
      exact List.nodup_nil
  | cons part rest ih =>
      intro after candidates h
      obtain ⟨place, shard, r⟩ := part
      unfold scoreParts at h
      obtain ⟨⟨r', hits⟩, hscore, h⟩ := yields_bind h
      obtain ⟨⟨rest', others⟩, hrest, h⟩ := yields_bind h
      obtain ⟨-, rfl⟩ := Prod.mk.inj (yields_pure h)
      obtain ⟨hnew, hothers⟩ := List.nodup_cons.mp hplaces
      rw [List.map_append]
      refine List.nodup_append.mpr ⟨?_, ih hothers (fun part hpart =>
        hhits part (List.mem_cons_of_mem _ hpart)) hrest, ?_⟩
      · have hhere : (hitsOf place shard hits).map (·.place)
            = (hits.map (·.doc)).map fun doc => (place, doc) := by
          rw [hitsOf, List.map_map, List.map_map]
          rfl
        rw [hhere]
        exact (hhits _ List.mem_cons_self r' hits hscore).map fun _ _ heq => (Prod.mk.inj heq).2
      -- the hits of the other shards are at other places
      · intro a ha b hb heq
        obtain ⟨x, hx, rfl⟩ := List.mem_map.mp ha
        obtain ⟨y, hy, rfl⟩ := List.mem_map.mp hb
        refine hnew ?_
        rw [← (shard_hitsOf hx).1, show x.shard = y.shard from (Prod.mk.inj heq).1]
        exact ((scoreParts_places hrest).2 y hy).1

/-- **No document is a candidate twice.** -/
theorem candidates_nodup {e : Engine} (hbuilt : e.Built) {request : SearchRequest}
    (hrequest : request.Accepted) {parts after : Parts} {candidates : List SearchHit}
    (hparts : (e.parts request).Yields parts) {global : Option GlobalStatistics}
    (hscored : (scoreParts e.settings global parts).Yields (after, candidates)) :
    (candidates.map (·.place)).Nodup := by
  refine scoreParts_nodup ?_ ?_ hscored
  · rw [places_parts hparts]
    exact List.nodup_range
  · intro part hpart r' hits hscore
    obtain ⟨k, hk⟩ := List.mem_iff_getElem?.mp hpart
    obtain ⟨-, hshard, hr⟩ := parts_yields hparts hk
    exact (ShardRequest.score_yields (hbuilt part.2.1 hshard)
      (ShardRequest.ofRequest_fresh hrequest hr) hscore).2.1

/-- **Cutting, fetching and sorting again** gives the first of the sorted candidates. -/
theorem response_best {e : Engine} {request : SearchRequest} {parts after : Parts}
    {candidates : List SearchHit} {fetched : List (List SearchHit)}
    (hparts : (e.parts request).Yields parts)
    (hscored : (scoreParts e.settings (e.globalOf request parts) parts).Yields (after, candidates))
    (hfetched : List.Forall₂ (fun part hits =>
        (fetch e.settings (e.globalOf request parts) request.explain part.2.1 part.2.2
          (((SearchHit.sort candidates).take request.size).filter (·.shard == part.1))).Yields hits)
        after fetched)
    (hnodup : (candidates.map (·.place)).Nodup) :
    (SearchHit.sort fetched.flatten).map SearchHit.bare
      = (SearchHit.sort candidates).take request.size := by
  let best := (SearchHit.sort candidates).take request.size
  obtain ⟨hplaces, hbare⟩ := scoreParts_places hscored
  have hfrom : ∀ c ∈ best, c ∈ candidates := fun c hc =>
    (SearchHit.sort_perm candidates).mem_iff.mp (List.mem_of_mem_take hc)
  have hkeys : (after.map (·.1)).Nodup := by
    rw [hplaces, places_parts hparts]
    exact List.nodup_range
  -- every best hit is fetched, on its own shard
  have hflatten : (fetched.flatten.map SearchHit.bare).Perm best := by
    have hblocks : fetched.map (·.map SearchHit.bare)
        = (after.map (·.1)).map fun place => best.filter (·.shard == place) := by
      rw [List.map_map]
      refine (map_eq_of_forall₂ (hfetched.imp fun part hits hhits => ?_)).symm
      rw [fetch_bare hhits]
      have hthere : (best.filter (·.shard == part.1)).map SearchHit.bare
          = best.filter (·.shard == part.1) := by
        refine (List.map_congr_left fun c hc => ?_).trans (List.map_id _)
        exact (hbare c (hfrom c (List.mem_filter.mp hc).1)).2
      exact hthere.symm
    rw [List.map_flatten, hblocks, ← List.flatMap_def]
    exact flatMap_filter_perm (·.shard) hkeys fun c hc =>
      hplaces ▸ (hbare c (hfrom c hc)).1
  have hsorted : best.Pairwise SearchHit.Outranks :=
    (SearchHit.sort_outranks hnodup).sublist (List.take_sublist _ _)
  rw [SearchHit.sort_bare]
  refine SearchHit.sort_eq_of_perm hflatten hsorted ?_
  rw [((hflatten.map (·.place))).nodup_iff]
  exact (((SearchHit.sort_perm candidates).map (·.place)).nodup_iff.mpr hnodup).sublist
    ((List.take_sublist _ _).map _)

end Engine

end FeatureRank
