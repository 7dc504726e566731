import AeloonRuntime.Runtime.StoredEntries

namespace AeloonRuntime

open Py Ancestry Results

/-!
# Session boundary — the messages behind a compaction

`build_context` puts the summary of a compaction and what it retains before the messages of the entries that
were appended later, and returns the index of the last of the former.

* `sourcedEntries` — the messages of a context, each with the entry it is projected from;
* `appended_after_iff` — an entry of a branch was appended after a compaction exactly if it stands behind it;
* `scan_boundary_split` — the boundary of an ordered branch in two parts;
* `compaction_boundary_iff` — a message comes from an entry that was appended after the latest compaction if and
  only if its index is greater than the boundary, and so does the anchor of an estimate.
-/

/-! ### Messages and their entries -/

/-- What several entries contribute, each message with its entry. -/
def sourcedEntries (now : Int) : List Dict → Except PyError (List (Dict × AgentMessage))
  | [] => .ok []
  | entry :: entries => do
    let messages ← entryMessages now entry
    let rest ← sourcedEntries now entries
    return messages.map (fun m => (entry, m)) ++ rest

section Sourced

variable {now : Int} {entries : List Dict} {messages : List AgentMessage}

/-- The messages of a projection have entries. -/
theorem exists_sourced (h : projectEntries now entries = .ok messages) :
    ∃ sourced, sourcedEntries now entries = .ok sourced ∧ sourced.map Prod.snd = messages
      ∧ ∀ item ∈ sourced, item.1 ∈ entries := by
  induction entries generalizing messages with
  | nil =>
    obtain rfl := Except.ok.inj h
    exact ⟨[], rfl, rfl, by simp⟩
  | cons entry entries ih =>
    obtain ⟨own, rest, hown, hrest, rfl⟩ := projectEntries_cons_ok.mp h
    obtain ⟨sourced, hsourced, hmessages, hmem⟩ := ih hrest
    refine ⟨own.map (fun m => (entry, m)) ++ sourced, ?_, ?_, ?_⟩
    · exact bind_eq_ok_iff.mpr ⟨own, hown, bind_eq_ok_iff.mpr ⟨sourced, hsourced, rfl⟩⟩
    · simp [hmessages, Function.comp_def]
    · intro item hitem
      rcases List.mem_append.mp hitem with hitem | hitem
      · obtain ⟨m, -, rfl⟩ := List.mem_map.mp hitem
        exact List.mem_cons_self
      · exact List.mem_cons_of_mem _ (hmem item hitem)

/-- The entries of two parts. -/
theorem sourcedEntries_append {front back : List Dict} {first last : List (Dict × AgentMessage)}
    (hfront : sourcedEntries now front = .ok first) (hback : sourcedEntries now back = .ok last) :
    sourcedEntries now (front ++ back) = .ok (first ++ last) := by
  induction front generalizing first with
  | nil =>
    obtain rfl := Except.ok.inj hfront
    exact hback
  | cons entry front ih =>
    obtain ⟨own, hown, htail⟩ := bind_eq_ok_iff.mp hfront
    obtain ⟨rest, hrest, heq⟩ := bind_eq_ok_iff.mp htail
    obtain rfl := pure_eq_ok_iff.mp heq
    rw [List.append_assoc]
    exact bind_eq_ok_iff.mpr ⟨own, hown, bind_eq_ok_iff.mpr ⟨rest ++ last, ih hrest, rfl⟩⟩

end Sourced

/-! ### The order of the log -/

/-- The entry was appended after the other one. -/
def Session.AppendedAfter (s : Session) (c e : Dict) : Prop := [c, e].Sublist s.entries

/-- In a list without repetitions two items have one order. -/
theorem sublist_pair_asymm {α : Type} [DecidableEq α] {l : List α} (hnodup : l.Nodup) {a b : α}
    (h : [a, b].Sublist l) : ¬ [b, a].Sublist l := by
  have hordered : l.Pairwise fun x y => l.idxOf x < l.idxOf y := by
    rw [List.pairwise_iff_getElem]
    intro i j hi hj hlt
    rwa [hnodup.idxOf_getElem, hnodup.idxOf_getElem]
  intro h'
  have hab := List.rel_of_pairwise_cons (hordered.sublist h) List.mem_cons_self
  have hba := List.rel_of_pairwise_cons (hordered.sublist h') List.mem_cons_self
  omega

section Branch

variable {s : Session} {branch front back : List Dict} {c : Dict}

/-- A branch keeps the order of the log. -/
theorem branch_sublist (h : s.Tree) (hbranch : s.getBranch = .ok branch) : branch.Sublist s.entries := by
  obtain ⟨path, hpath⟩ := h.exists_path
  rw [Session.getBranch_eq h hpath] at hbranch
  obtain rfl := Except.ok.inj hbranch
  obtain ⟨rest, hrest⟩ := Session.cutBack_prefix .null path.reverse
  have hsuffix : (Session.cutBack .null path.reverse).reverse.Sublist path := by
    rw [← List.reverse_sublist, List.reverse_reverse]
    conv_rhs => rw [hrest]
    exact List.sublist_append_left _ _
  exact hsuffix.trans (hpath.sublist h.log)

/-- An entry of a branch was appended after another one exactly if it stands behind it. -/
theorem appended_after_iff (h : s.Tree) (hbranch : s.getBranch = .ok (front ++ c :: back)) {e : Dict}
    (he : e ∈ front ++ c :: back) : s.AppendedAfter c e ↔ e ∈ back := by
  have hsub := branch_sublist h hbranch
  have hnodup : s.entries.Nodup := List.Nodup.of_map entryIdOf h.log.nodup
  constructor
  · intro hafter
    rcases List.mem_append.mp he with hfront | hback
    · have hbefore : [e, c].Sublist (front ++ c :: back) :=
        (List.singleton_sublist.mpr hfront).append (List.singleton_sublist.mpr List.mem_cons_self)
      exact absurd (hbefore.trans hsub) (sublist_pair_asymm hnodup hafter)
    · rcases List.mem_cons.mp hback with rfl | hback
      · exact absurd hafter (sublist_pair_asymm hnodup hafter)
      · exact hback
  · intro hback
    have hpair : [c, e].Sublist (front ++ c :: back) :=
      ((List.singleton_sublist.mpr hback).cons_cons c).trans (List.sublist_append_right _ _)
    exact hpair.trans hsub

/-- Where a walk passes a compaction, that retains its tail in the tree. -/
theorem cutBack_plain (stopAt : Json) (path passed : List Dict) (last : Dict)
    (hcut : Session.cutBack stopAt path = passed ++ [last]) :
    ∀ e ∈ passed, isType e "compaction" = true → isPlainCompaction e = true := by
  induction path generalizing stopAt passed with
  | nil => simp [Session.cutBack] at hcut
  | cons entry earlier ih =>
    rw [Session.cutBack] at hcut
    split at hcut
    · have hlength := congrArg List.length hcut
      obtain rfl : passed = [] := List.length_eq_zero_iff.mp (by simpa using hlength)
      simp
    · rename_i hgoes
      cases passed with
      | nil => simp
      | cons first passed =>
        obtain ⟨rfl, hrest⟩ := List.cons.inj hcut
        intro e he hcompaction
        rcases List.mem_cons.mp he with rfl | he
        · simp only [Session.stopsAt, Bool.or_eq_true, not_or, Bool.and_eq_true, not_and] at hgoes
          simpa [isPlainCompaction, hcompaction] using hgoes.2 hcompaction
        · exact ih _ passed hrest e he hcompaction

/-- On a branch, only the first entry can be a compaction that carries its tail. -/
theorem branch_plain (h : s.Tree) (hbranch : s.getBranch = .ok (front ++ c :: back)) (hfront : front ≠ [])
    (hc : isType c "compaction" = true) : isPlainCompaction c = true := by
  obtain ⟨path, hpath⟩ := h.exists_path
  rw [Session.getBranch_eq h hpath] at hbranch
  obtain ⟨first, front, rfl⟩ := List.exists_cons_of_ne_nil hfront
  have hcut : Session.cutBack .null path.reverse = (front ++ c :: back).reverse ++ [first] := by
    rw [← List.reverse_reverse (Session.cutBack .null path.reverse), Except.ok.inj hbranch]
    simp
  exact cutBack_plain _ _ _ _ hcut c (by simp) hc

end Branch

/-! ### The boundary of an ordered branch -/

section Scan

variable {now : Int} {latest : Option Nat} {ids : List String} {entries before back : List Dict}
  {scan scan' : ContextScan}

/-- Entries with other ids leave the boundary alone. -/
theorem scan_before (h : entries.foldlM (ContextScan.step now latest ids) scan = .ok scan')
    (hids : ∀ e ∈ entries, entryIdOf e ∉ ids) :
    scan'.freshContextStarted = scan.freshContextStarted
      ∧ scan'.compactionBoundaryIndex = scan.compactionBoundaryIndex := by
  induction entries generalizing scan with
  | nil =>
    obtain rfl := pure_eq_ok_iff.mp h
    exact ⟨rfl, rfl⟩
  | cons entry entries ih =>
    rw [List.foldlM_cons, bind_eq_ok_iff] at h
    obtain ⟨next, hnext, h⟩ := h
    rw [ContextScan.step, bind_eq_ok_iff] at hnext
    obtain ⟨own, -, hnext⟩ := hnext
    obtain rfl := pure_eq_ok_iff.mp hnext
    have hno : entryIdOf entry ∉ ids := hids entry List.mem_cons_self
    simpa [hno] using ih h fun e he => hids e (List.mem_cons_of_mem _ he)

/-- Behind its start, the fresh context moves no boundary. -/
theorem scan_after (h : entries.foldlM (ContextScan.step now latest ids) scan = .ok scan')
    (hfresh : scan.freshContextStarted = true) :
    scan'.compactionBoundaryIndex = scan.compactionBoundaryIndex := by
  induction entries generalizing scan with
  | nil =>
    obtain rfl := pure_eq_ok_iff.mp h
    rfl
  | cons entry entries ih =>
    rw [List.foldlM_cons, bind_eq_ok_iff] at h
    obtain ⟨next, hnext, h⟩ := h
    rw [ContextScan.step, bind_eq_ok_iff] at hnext
    obtain ⟨own, -, hnext⟩ := hnext
    obtain rfl := pure_eq_ok_iff.mp hnext
    simpa [hfresh] using ih h (by simp [hfresh])

/-- **Two parts.** The boundary is the last message of the part whose ids are not those of the fresh context; a
    part behind it that is empty leaves the boundary to the end of the loop. -/
theorem scan_boundary_split (i : Nat) (hids : ∀ e ∈ before, entryIdOf e ∉ ids)
    (hback : back.map entryIdOf = ids)
    (h : (before ++ back).foldlM (ContextScan.step now (some i) ids) {} = .ok scan) {first : List AgentMessage}
    (hfirst : projectEntries now before = .ok first) :
    (if scan.compactionBoundaryIndex.isNone then some ((scan.messages.length : Int) - 1)
      else scan.compactionBoundaryIndex) = some ((first.length : Int) - 1) := by
  rw [List.foldlM_append, bind_eq_ok_iff] at h
  obtain ⟨mid, hmid, h⟩ := h
  obtain ⟨hfresh, hnone⟩ := scan_before hmid hids
  have hmessages : mid.messages = first := by
    have hscan := scan_messages now (some i) ids before {}
    rw [hmid, hfirst] at hscan
    simpa [Except.map] using hscan
  cases back with
  | nil =>
    obtain rfl := pure_eq_ok_iff.mp h
    rw [hnone, hmessages]
    rfl
  | cons entry back =>
    rw [List.foldlM_cons, bind_eq_ok_iff] at h
    obtain ⟨next, hnext, h⟩ := h
    rw [ContextScan.step, bind_eq_ok_iff] at hnext
    obtain ⟨own, -, hnext⟩ := hnext
    obtain rfl := pure_eq_ok_iff.mp hnext
    have hstarts : entryIdOf entry ∈ ids := by simp [← hback]
    rw [hfresh] at h
    have hkept := scan_after h (by simp [hstarts])
    rw [hkept, hmessages]
    simp [hstarts]

end Scan

/-! ### The boundary of a context -/

section Context

variable {s : Session} {branch front back : List Dict} {c : Dict}

/-- Items behind the last one with a property do not matter to the loop from the end. -/
theorem lastIdx?_append_neg {α : Type} {p : α → Bool} {back : List α} (hback : ∀ a ∈ back, p a = false) (l : List α) :
    lastIdx? p (l ++ back) = lastIdx? p l := by
  induction back using List.reverseRecOn with
  | nil => rw [List.append_nil]
  | append_singleton back a ih =>
    rw [← List.append_assoc, lastIdx?_concat_neg (hback a (by simp))]
    exact ih fun b hb => hback b (by simp [hb])

/-- The latest compaction of a branch, and the entries that are put before those behind it. -/
theorem latest_compaction_split (h : s.Tree) (hbranch : s.getBranch = .ok (front ++ c :: back))
    (hc : isType c "compaction" = true) (hlast : ∀ e ∈ back, isType e "compaction" = false) :
    latestCompaction (front ++ c :: back) = some front.length
      ∧ ∃ before, orderBranch (front ++ c :: back) = before ++ back ∧ before.Perm (front ++ [c]) := by
  have hplainNo : ∀ e ∈ back, isPlainCompaction e = false := fun e he => isPlainCompaction_neg (hlast e he)
  rw [List.append_cons]
  by_cases hplain : isPlainCompaction c = true
  · have hlastPlain : lastIdx? isPlainCompaction (front ++ [c] ++ back) = some front.length := by
      rw [lastIdx?_append_neg hplainNo, lastIdx?_concat hplain]
    refine ⟨by rw [latestCompaction, hlastPlain]; rfl, c :: front, ?_, (List.perm_append_singleton c front).symm⟩
    rw [orderBranch, hlastPlain]
    simp [List.eraseIdx_append_of_length_le]
  · -- a compaction that carries its tail begins the branch
    obtain rfl : front = [] := by
      by_contra hfront
      exact hplain (branch_plain h hbranch hfront hc)
    have hnone : lastIdx? isPlainCompaction ([] ++ [c] ++ back) = none := by
      rw [lastIdx?_append_neg hplainNo]
      simp [lastIdx?, hplain]
    have hfirst : lastIdx? (fun e => isType e "compaction") ([] ++ [c] ++ back) = some 0 := by
      rw [lastIdx?_append_neg hlast]
      simp [lastIdx?, hc]
    refine ⟨by rw [latestCompaction, hnone, Option.none_or, hfirst]; rfl, [c], ?_, .refl _⟩
    rw [orderBranch, hnone]
    rfl

/-- **Boundaries.** A message of a context comes from an entry that was appended after the latest compaction of the
    branch if and only if its index is greater than the boundary; what an estimate is anchored on comes from such
    an entry. -/
theorem compaction_boundary_iff (h : s.Tree) (hbranch : s.getBranch = .ok (front ++ c :: back))
    (hc : isType c "compaction" = true) (hlast : ∀ e ∈ back, isType e "compaction" = false) {now : Int}
    {context : SessionContext} (hcontext : s.buildContext now = .ok context) :
    ∃ sourced b, sourcedEntries now (orderBranch (front ++ c :: back)) = .ok sourced
      ∧ context.messages = sourced.map Prod.snd ∧ context.compactionBoundaryIndex = some b
      ∧ (∀ (i : Nat) e m, sourced[i]? = some (e, m) → (s.AppendedAfter c e ↔ b < (i : Int)))
      ∧ ∀ (i : Nat), contextAnchor context.messages (some b) = some i →
          ∃ e m, sourced[i]? = some (e, m) ∧ s.AppendedAfter c e := by
  obtain ⟨hlatest, before, horder, hperm⟩ := latest_compaction_split h hbranch hc hlast
  obtain ⟨branch, full, state, scan, hbranch', -, -, hscan, rfl⟩ := buildContext_eq_ok_iff.mp hcontext
  obtain rfl := Except.ok.inj (hbranch'.symm.trans hbranch)
  have hids : postCompactionIds (front ++ c :: back) = back.map entryIdOf := by
    rw [postCompactionIds, hlatest, List.append_cons]
    show ((front ++ [c] ++ back).drop (front.length + 1)).map entryIdOf = _
    rw [List.drop_left' (by simp)]
  rw [hlatest, hids, horder] at hscan
  -- the ids of a branch are distinct
  have hnodup : ((front ++ c :: back).map entryIdOf).Nodup :=
    h.log.nodup.sublist ((branch_sublist h hbranch).map entryIdOf)
  have hapart : ∀ e ∈ before, entryIdOf e ∉ back.map entryIdOf := by
    intro e he hin
    have hmem := List.mem_map_of_mem (f := entryIdOf) (hperm.mem_iff.mp he)
    rw [List.append_cons, List.map_append, List.nodup_append] at hnodup
    exact hnodup.2.2 _ hmem _ hin rfl
  have hmessages := scan_messages now (some front.length) (back.map entryIdOf) (before ++ back) {}
  rw [hscan] at hmessages
  obtain ⟨messages, hproject, hsame⟩ := map_eq_ok_iff.mp hmessages.symm
  obtain ⟨first, last, hfirst, hback, rfl⟩ := projectEntries_append_ok.mp hproject
  obtain ⟨sourcedFirst, hsourcedFirst, hmapFirst, hmemFirst⟩ := exists_sourced hfirst
  obtain ⟨sourcedLast, hsourcedLast, hmapLast, hmemLast⟩ := exists_sourced hback
  have hall : scan.messages = (sourcedFirst ++ sourcedLast).map Prod.snd := by
    rw [List.map_append, hmapFirst, hmapLast, ← hsame]
    rfl
  have hlength : sourcedFirst.length = first.length := by rw [← hmapFirst, List.length_map]
  have hiff : ∀ (i : Nat) e m, (sourcedFirst ++ sourcedLast)[i]? = some (e, m) →
      (s.AppendedAfter c e ↔ (first.length : Int) - 1 < (i : Int)) := by
    intro i e m hget
    by_cases hlt : i < sourcedFirst.length
    · rw [List.getElem?_append_left hlt] at hget
      have hmem : e ∈ before := hmemFirst _ (List.mem_of_getElem? hget)
      have hin : e ∈ front ++ c :: back := by
        rw [List.append_cons]
        exact List.mem_append_left _ (hperm.mem_iff.mp hmem)
      rw [appended_after_iff h hbranch hin]
      constructor
      · exact fun hafter => absurd (List.mem_map_of_mem hafter) (hapart e hmem)
      · intro hbehind
        omega
    · rw [List.getElem?_append_right (by omega)] at hget
      have hmem : e ∈ back := hmemLast _ (List.mem_of_getElem? hget)
      rw [appended_after_iff h hbranch (by simp [hmem])]
      exact ⟨fun _ => by omega, fun _ => hmem⟩
  have hboundary := scan_boundary_split front.length hapart rfl hscan hfirst
  refine ⟨sourcedFirst ++ sourcedLast, (first.length : Int) - 1, ?_, hall, ?_, hiff, ?_⟩
  · rw [horder]
    exact sourcedEntries_append hsourcedFirst hsourcedLast
  · simpa [hlatest, hids, horder] using hboundary
  · intro i hanchor
    obtain ⟨hafter, m, hget, -⟩ := contextAnchor_spec hanchor
    rw [hall, List.getElem?_map, Option.map_eq_some_iff] at hget
    obtain ⟨⟨e, found⟩, hentry, hfound⟩ := hget
    obtain rfl : found = m := hfound
    exact ⟨e, found, hentry, (hiff i e found hentry).mpr (of_decide_eq_true hafter)⟩

end Context

/-- The compaction of a session, between the messages it keeps and one more. -/
def sampleCompaction : Dict := compactedBetween.entries.getD 3 []

/-- Behind it the context has the summary, two messages that are kept, and the new one. -/
theorem compactedBetween_boundary :
    ∃ context, ∃ sourced : List (Dict × AgentMessage), ∃ b, compactedBetween.buildContext 0 = .ok context ∧ context.messages.length = 4
      ∧ context.compactionBoundaryIndex = some 2
      ∧ context.messages = sourced.map Prod.snd ∧ context.compactionBoundaryIndex = some b
      ∧ ∀ (i : Nat) e m, sourced[i]? = some (e, m) →
          (compactedBetween.AppendedAfter sampleCompaction e ↔ b < (i : Int)) := by
  have htree := Session.reachable_tree compactedBetween_reachable
  have hcheck : (compactedBetween.buildContext 0).toOption.any (fun context =>
      context.messages.length = 4 ∧ context.compactionBoundaryIndex = some 2) = true := by decide +kernel
  obtain ⟨context, hcontext, hshape⟩ := exists_ok_of_any hcheck
  obtain ⟨hlength, hindex⟩ := of_decide_eq_true hshape
  have hbranch : compactedBetween.getBranch
      = .ok ((compactedBetween.entries.drop 1).take 2 ++ sampleCompaction :: compactedBetween.entries.drop 4) := by
    decide +kernel
  obtain ⟨sourced, b, -, hmessages, hboundary, hiff, -⟩ :=
    compaction_boundary_iff htree hbranch (by decide +kernel) (by decide +kernel) hcontext
  exact ⟨context, sourced, b, hcontext, hlength, hindex, hmessages, hboundary, hiff⟩


end AeloonRuntime
