import AeloonRuntime.Core.ContextStats
import AeloonRuntime.Core.MessageCodec
import AeloonRuntime.Runtime.SessionGrowth
import Mathlib.Data.List.Induction

namespace AeloonRuntime

open Py Results

/-!
# Session statistics — kept along the append path

`Session.stats` returns totals over all entries, which every append extends, and statistics of the
context, from a cache that the append of a message extends and every other write drops.
`_stats_full` scans everything.

* `SessionHandle` — a session with its version, its totals and its cache;
* `SessionHandle.call`, `SessionHandle.stats` — the writes, and the read that may fill the cache;
* `SessionHandle.Valid` — totals and cache are what a full scan would give;
* `stats_eq_full` — so `stats` always returns what `_stats_full` returns.

A percentage is a function of two integers (`Rounding`), and the `float` of a cost an exact number that
the stored value has (`toFloat`).
-/

/-! ### Totals -/

/-- `_LifetimeStats`. -/
structure LifetimeStats where
  messageCount : Int := 0
  totalTokens : Int := 0
  cost : Rat := 0
  inputTokens : Int := 0
  cacheRead : Int := 0
  cacheWrite : Int := 0
  requestCount : Int := 0
  hitRequestCount : Int := 0

/-- `usage` of a stored value: none where it is empty, an error where it is no mapping. -/
def storedUsage (value : Json) : Except PyError (Option Dict) :=
  if value.truthy then
    match value.asDict? with
    | some usage => .ok (some usage)
    | none => .error .decodeError
  else .ok none

/-- The usage that an entry carries. -/
def entryUsage (entry : Dict) : Except PyError (Option Dict) :=
  if isType entry "message" then
    match (Dict.getD entry "message").truthy, (Dict.getD entry "message").asDict? with
    | false, _ => .ok none
    | true, none => .error .decodeError
    | true, some message =>
      if Dict.getD message "role" = .str "assistant" then storedUsage (Dict.getD message "usage")
      else .ok none
  else if isType entry "compaction" || isType entry "branch_summary" then
    storedUsage (Dict.getD entry "usage")
  else .ok none

/-- `int(usage.get(key) or 0)`. -/
def usageInt (usage : Dict) (key : String) : Except PyError Int :=
  match intOrZero (Dict.getD usage key) with
  | some n => .ok n
  | none => .error .decodeError

/-- `float((usage.get("cost") or {}).get("total") or 0)`. -/
def usageCost (toFloat : Json → Rat) (usage : Dict) : Except PyError Rat :=
  match (Dict.getD usage "cost").truthy, (Dict.getD usage "cost").asDict? with
  | false, _ => .ok 0
  | true, none => .error .decodeError
  | true, some cost =>
    .ok (if (Dict.getD cost "total").truthy then toFloat (Dict.getD cost "total") else 0)

/-- The token counts of one usage, none below zero. -/
structure CacheUsage where
  uncached : Int
  cacheRead : Int
  cacheWrite : Int

/-- The token counts of `add` and `cache_statistics`. -/
def cacheUsage (usage : Dict) : Except PyError CacheUsage := do
  let uncached ← usageInt usage "input"
  let cacheRead ← usageInt usage "cacheRead"
  let cacheWrite ← usageInt usage "cacheWrite"
  return { uncached := max 0 uncached, cacheRead := max 0 cacheRead, cacheWrite := max 0 cacheWrite }

/-- The request read or wrote something. -/
def CacheUsage.isRequest (u : CacheUsage) : Bool := u.uncached ≠ 0 || u.cacheRead ≠ 0 || u.cacheWrite ≠ 0

/-- `_LifetimeStats.add`. -/
def LifetimeStats.add (toFloat : Json → Rat) (stats : LifetimeStats) (entry : Dict) :
    Except PyError LifetimeStats := do
  let stats :=
    if isType entry "message" then { stats with messageCount := stats.messageCount + 1 } else stats
  match ← entryUsage entry with
  | none => return stats
  | some usage =>
    let totalTokens ← usageInt usage "totalTokens"
    let cost ← usageCost toFloat usage
    let u ← cacheUsage usage
    return { stats with
      totalTokens := stats.totalTokens + totalTokens
      cost := stats.cost + cost
      inputTokens := stats.inputTokens + u.uncached
      cacheRead := stats.cacheRead + u.cacheRead
      cacheWrite := stats.cacheWrite + u.cacheWrite
      requestCount := stats.requestCount + (if u.isRequest then 1 else 0)
      hitRequestCount := stats.hitRequestCount
        + (if u.isRequest && u.cacheRead ≠ 0 then 1 else 0) }

/-- `_lifetime_stats`. -/
def lifetimeStats (toFloat : Json → Rat) (entries : List Dict) : Except PyError LifetimeStats :=
  entries.foldlM (LifetimeStats.add toFloat) {}

/-- What `cache` and `cache_statistics` return. -/
structure CacheStatistics where
  inputTokens : Int
  readTokens : Int
  writeTokens : Int
  cacheableTokens : Int
  hitTokenPercent : Rat
  requestCount : Int
  hitRequestCount : Int
  hitRequestPercent : Rat

/-- `_LifetimeStats.cache`. -/
def LifetimeStats.cache (round : Rounding) (stats : LifetimeStats) : CacheStatistics :=
  let cacheable := stats.inputTokens + stats.cacheRead
  { inputTokens := stats.inputTokens
    readTokens := stats.cacheRead
    writeTokens := stats.cacheWrite
    cacheableTokens := cacheable
    hitTokenPercent := percent round stats.cacheRead cacheable
    requestCount := stats.requestCount
    hitRequestCount := stats.hitRequestCount
    hitRequestPercent := percent round stats.hitRequestCount stats.requestCount }

/-- `_entry_usages`: what is no mapping raises where it is read. -/
def entryUsages (entries : List Dict) : Except PyError (List Dict) :=
  (entries.mapM entryUsage).map fun usages => usages.filterMap id

/-- The variables of the loop of `cache_statistics`. -/
structure CacheTotals where
  inputTokens : Int := 0
  readTokens : Int := 0
  writeTokens : Int := 0
  requestCount : Int := 0
  hitRequestCount : Int := 0

/-- One usage of `cache_statistics`. -/
def CacheTotals.add (totals : CacheTotals) (usage : Dict) : Except PyError CacheTotals := do
  let u ← cacheUsage usage
  return {
    inputTokens := totals.inputTokens + u.uncached
    readTokens := totals.readTokens + u.cacheRead
    writeTokens := totals.writeTokens + u.cacheWrite
    requestCount := totals.requestCount + (if u.isRequest then 1 else 0)
    hitRequestCount := totals.hitRequestCount
      + (if u.isRequest && u.cacheRead ≠ 0 then 1 else 0) }

/-- `cache_statistics`. -/
def cacheStatistics (round : Rounding) (usages : List Dict) : Except PyError CacheStatistics := do
  let totals ← usages.foldlM CacheTotals.add {}
  let cacheableTokens := totals.inputTokens + totals.readTokens
  return {
    inputTokens := totals.inputTokens
    readTokens := totals.readTokens
    writeTokens := totals.writeTokens
    cacheableTokens := cacheableTokens
    hitTokenPercent := percent round totals.readTokens cacheableTokens
    requestCount := totals.requestCount
    hitRequestCount := totals.hitRequestCount
    hitRequestPercent := percent round totals.hitRequestCount totals.requestCount }

/-! ### The cache of the context -/

/-- `_ContextStatsCache`. -/
structure ContextStatsCache where
  version : Nat
  leafId : Json
  messageCounts : Buckets
  estimatedTokens : Buckets
  estimatedTotal : Int
  usageAnchor : Option Int
  trailingTokens : Int

/-- `used_tokens`. -/
def ContextStatsCache.usedTokens (cache : ContextStatsCache) : Int :=
  match cache.usageAnchor with
  | none => cache.estimatedTotal
  | some anchor => anchor + cache.trailingTokens

/-- A message is counted; its usage may become the anchor if it stands behind the boundary. -/
def ContextStatsCache.count (cache : ContextStatsCache) (message : AgentMessage)
    (afterBoundary : Bool) : ContextStatsCache :=
  let estimated : Int := estimateTokens message
  let kind := messageTypeForStatistics message
  let counted := { cache with
    messageCounts := cache.messageCounts.add kind 1
    estimatedTokens := cache.estimatedTokens.add kind estimated
    estimatedTotal := cache.estimatedTotal + estimated }
  match message.usageAnchor?, afterBoundary with
  | some total, true => { counted with usageAnchor := some total, trailingTokens := 0 }
  | _, _ =>
    if cache.usageAnchor.isSome then { counted with trailingTokens := cache.trailingTokens + estimated }
    else counted

/-- `_ContextStatsCache.append`. -/
def ContextStatsCache.append (cache : ContextStatsCache) (message : AgentMessage) (version : Nat)
    (leafId : Json) : ContextStatsCache :=
  { cache.count message true with version := version, leafId := leafId }

/-- A cache that counted nothing. -/
def ContextStatsCache.empty (version : Nat) (leafId : Json) : ContextStatsCache where
  version := version
  leafId := leafId
  messageCounts := fun _ => 0
  estimatedTokens := fun _ => 0
  estimatedTotal := 0
  usageAnchor := none
  trailingTokens := 0

/-- `_context_stats_cache`. -/
def contextStatsCache (context : SessionContext) (version : Nat) (leafId : Json) : ContextStatsCache :=
  context.messages.zipIdx.foldl
    (fun cache item => cache.count item.1
      (context.compactionBoundaryIndex.all (· < (item.2 : Int))))
    (.empty version leafId)

/-! ### The handle -/

/-- `Session` with the fields of its statistics. -/
structure SessionHandle where
  session : Session
  version : Nat := 0
  lifetime : LifetimeStats
  cache : Option ContextStatsCache := none

/-- What `stats` returns. -/
structure SessionStatistics where
  messageCount : Int
  totalTokens : Int
  costTotal : Rat
  context : ContextStatistics
  cache : CacheStatistics

/-- `_context_message`. -/
def contextMessage (now : Int) (entry : Dict) : Except PyError (Option AgentMessage) :=
  if isType entry "message" then (decodeMessage (Dict.get entry "message")).map some
  else if isType entry "custom_message" then
    .ok (some (userText now ((Dict.getD entry "content").strOr "")))
  else .ok none

namespace SessionHandle

/-- `Session.__init__`. -/
def init (toFloat : Json → Rat) (s : Session) : Except PyError SessionHandle := do
  let lifetime ← lifetimeStats toFloat s.entries
  return { session := s, lifetime := lifetime }

/-- What `_append_entry` does behind `_persist`. -/
def append (toFloat : Json → Rat) (h : SessionHandle) (now : Int) (entry : Dict) (s : Session) :
    Except PyError SessionHandle := do
  let lifetime ← h.lifetime.add toFloat entry
  let message ← contextMessage now entry
  let cache := match message, h.cache with
    | some message, some cache =>
      if cache.version = h.version ∧ cache.leafId = h.session.currentLeafId then
        some (cache.append message (h.version + 1) (Dict.getD entry "id"))
      else none
    | _, _ => none
  return { session := s, version := h.version + 1, lifetime := lifetime, cache := cache }

/-- What `set_leaf_id` does behind `_persist`. -/
def moveLeaf (toFloat : Json → Rat) (h : SessionHandle) (entry : Dict) (s : Session) :
    Except PyError SessionHandle := do
  let lifetime ← h.lifetime.add toFloat entry
  return { session := s, version := h.version + 1, lifetime := lifetime, cache := none }

/-- A call that writes an entry. -/
def call (toFloat : Json → Rat) (h : SessionHandle) (stamp : Stamp) (now : Int)
    (op : Session.Op) :
    Except PyError SessionHandle := do
  let (entry, s) ← op.apply h.session stamp
  match op with
  | .setLeafId _ => h.moveLeaf toFloat entry s
  | _ => h.append toFloat now entry s

/-- The cache that `stats` reads: the one that is there, or a new one. -/
def currentCache (h : SessionHandle) (now : Int) : Except PyError ContextStatsCache :=
  match h.cache.filter fun cache => cache.version = h.version with
  | some cache => .ok cache
  | none => (h.session.buildContext now).map fun context =>
    contextStatsCache context h.version h.session.currentLeafId

/-- `stats`: what it returns, and the handle behind it. -/
def stats (round : Rounding) (h : SessionHandle) (now : Int) (contextWindow : Option Int) :
    Except PyError (SessionStatistics × SessionHandle) := do
  let cache ← h.currentCache now
  return ({
    messageCount := h.lifetime.messageCount
    totalTokens := h.lifetime.totalTokens
    costTotal := h.lifetime.cost
    context := contextStatisticsFromAggregates round cache.usedTokens cache.messageCounts
      cache.estimatedTokens contextWindow
    cache := h.lifetime.cache round }, { h with cache := some cache })

/-- `_stats_full`. -/
def statsFull (round : Rounding) (toFloat : Json → Rat) (h : SessionHandle) (now : Int)
    (contextWindow : Option Int) : Except PyError SessionStatistics := do
  let lifetime ← lifetimeStats toFloat h.session.entries
  let usages ← entryUsages h.session.entries
  let context ← h.session.buildContext now
  let cache ← cacheStatistics round usages
  return {
    messageCount := lifetime.messageCount
    totalTokens := lifetime.totalTokens
    costTotal := lifetime.cost
    context := contextStatistics round context.messages contextWindow context.compactionBoundaryIndex
    cache := cache }

end SessionHandle

/-! ### Totals and a full scan -/

/-- The part of the totals that `cache_statistics` sums up. -/
def LifetimeStats.cacheTotals (stats : LifetimeStats) : CacheTotals where
  inputTokens := stats.inputTokens
  readTokens := stats.cacheRead
  writeTokens := stats.cacheWrite
  requestCount := stats.requestCount
  hitRequestCount := stats.hitRequestCount

/-- What an entry adds to the totals. -/
theorem add_eq_ok {toFloat : Json → Rat} {stats stats' : LifetimeStats} {entry : Dict}
    (h : stats.add toFloat entry = .ok stats') :
    (entryUsage entry = .ok none ∧ stats'.cacheTotals = stats.cacheTotals)
      ∨ ∃ usage, entryUsage entry = .ok (some usage)
        ∧ stats.cacheTotals.add usage = .ok stats'.cacheTotals := by
  rw [LifetimeStats.add, bind_eq_ok_iff] at h
  obtain ⟨usage?, husage, h⟩ := h
  have hcounted : (if isType entry "message" = true then
      { stats with messageCount := stats.messageCount + 1 } else stats).cacheTotals
      = stats.cacheTotals := by
    split <;> rfl
  cases usage? with
  | none =>
    obtain rfl := pure_eq_ok_iff.mp h
    exact .inl ⟨husage, hcounted⟩
  | some usage =>
    simp only [bind_eq_ok_iff, pure_eq_ok_iff] at h
    obtain ⟨total, -, cost, -, u, hu, rfl⟩ := h
    refine .inr ⟨usage, husage, ?_⟩
    rw [CacheTotals.add, hu]
    rw [← hcounted]
    rfl

/-- The totals hold what `cache_statistics` finds. -/
theorem cacheTotals_of_lifetime {toFloat : Json → Rat} {entries : List Dict}
    {stats stats' : LifetimeStats}
    (h : entries.foldlM (LifetimeStats.add toFloat) stats = .ok stats') :
    ∃ usages, entryUsages entries = .ok usages
      ∧ usages.foldlM CacheTotals.add stats.cacheTotals = .ok stats'.cacheTotals := by
  induction entries generalizing stats with
  | nil =>
    obtain rfl := pure_eq_ok_iff.mp h
    exact ⟨[], rfl, rfl⟩
  | cons entry entries ih =>
    rw [List.foldlM_cons, bind_eq_ok_iff] at h
    obtain ⟨next, hnext, h⟩ := h
    obtain ⟨usages, husages, hfold⟩ := ih h
    obtain ⟨found, hfound, rfl⟩ := map_eq_ok_iff.mp husages
    obtain ⟨husage, htotals⟩ | ⟨usage, husage, hadd⟩ := add_eq_ok hnext
    · refine ⟨found.filterMap id, ?_, htotals ▸ hfold⟩
      exact map_eq_ok_iff.mpr ⟨none :: found,
        mapM_cons_eq_ok_iff.mpr ⟨none, found, husage, hfound, rfl⟩, rfl⟩
    · refine ⟨usage :: found.filterMap id, ?_, ?_⟩
      · exact map_eq_ok_iff.mpr ⟨some usage :: found,
          mapM_cons_eq_ok_iff.mpr ⟨some usage, found, husage, hfound, rfl⟩, rfl⟩
      · rw [List.foldlM_cons, hadd]
        exact hfold

/-- `cache` of the totals is `cache_statistics` of the usages. -/
theorem cacheStatistics_of_lifetime {toFloat : Json → Rat} (round : Rounding) {entries : List Dict}
    {stats : LifetimeStats} (h : lifetimeStats toFloat entries = .ok stats) :
    ∃ usages, entryUsages entries = .ok usages
      ∧ cacheStatistics round usages = .ok (stats.cache round) := by
  obtain ⟨usages, husages, hfold⟩ := cacheTotals_of_lifetime h
  refine ⟨usages, husages, ?_⟩
  change usages.foldlM CacheTotals.add {} = _ at hfold
  rw [cacheStatistics, hfold]
  rfl

/-! ### The cache and a full scan -/

section Cache

/-- What the statistics read of a message. -/
def statKey (m : AgentMessage) : MessageType × Nat × Option Int :=
  (messageTypeForStatistics m, estimateTokens m, m.usageAnchor?)

/-- What the statistics read of a context. -/
def contextKey (context : SessionContext) : List (MessageType × Nat × Option Int) × Option Int :=
  (context.messages.map statKey, context.compactionBoundaryIndex)

theorem count_congr (cache : ContextStatsCache) {m m' : AgentMessage} (h : statKey m = statKey m')
    (after : Bool) : cache.count m after = cache.count m' after := by
  simp only [statKey, Prod.mk.injEq] at h
  obtain ⟨htype, htokens, hanchor⟩ := h
  simp only [ContextStatsCache.count, htype, htokens, hanchor]

/-- The cache reads no more of a context than its keys. -/
theorem contextStatsCache_congr {context context' : SessionContext}
    (h : contextKey context = contextKey context') (version : Nat) (leafId : Json) :
    contextStatsCache context version leafId = contextStatsCache context' version leafId := by
  obtain ⟨hmessages, hboundary⟩ := Prod.mk.inj h
  unfold contextStatsCache
  rw [hboundary]
  generalize ContextStatsCache.empty version leafId = cache
  have hall : ∀ (ms ms' : List AgentMessage) (k : Nat) (cache : ContextStatsCache),
      ms.map statKey = ms'.map statKey →
      (ms.zipIdx k).foldl (fun cache item => cache.count item.1
          (context'.compactionBoundaryIndex.all (· < (item.2 : Int)))) cache
        = (ms'.zipIdx k).foldl (fun cache item => cache.count item.1
          (context'.compactionBoundaryIndex.all (· < (item.2 : Int)))) cache := by
    intro ms
    induction ms with
    | nil =>
      intro ms' k cache hkeys
      rw [List.map_nil, eq_comm, List.map_eq_nil_iff] at hkeys
      rw [hkeys]
    | cons m ms ih =>
      intro ms' k cache hkeys
      obtain ⟨m', ms', rfl, hm, hms⟩ := List.map_eq_cons_iff.mp hkeys.symm
      rw [List.zipIdx_cons, List.zipIdx_cons, List.foldl_cons, List.foldl_cons,
        count_congr cache hm.symm]
      exact ih ms' (k + 1) _ hms.symm
  exact hall _ _ 0 cache hmessages

/-- The same counts under another version and leaf. -/
def ContextStatsCache.mark (cache : ContextStatsCache) (version : Nat) (leafId : Json) :
    ContextStatsCache :=
  { cache with version := version, leafId := leafId }

theorem mark_count (cache : ContextStatsCache) (version : Nat) (leafId : Json) (m : AgentMessage)
    (after : Bool) :
    (cache.mark version leafId).count m after = (cache.count m after).mark version leafId := by
  unfold ContextStatsCache.count ContextStatsCache.mark
  split
  · rfl
  · split <;> rfl

theorem mark_foldl (boundary : Option Int) (items : List (AgentMessage × Nat))
    (cache : ContextStatsCache) (version : Nat) (leafId : Json) :
    items.foldl (fun cache item => cache.count item.1 (boundary.all (· < (item.2 : Int))))
        (cache.mark version leafId)
      = (items.foldl (fun cache item => cache.count item.1 (boundary.all (· < (item.2 : Int))))
        cache).mark version leafId := by
  induction items generalizing cache with
  | nil => rfl
  | cons item items ih => rw [List.foldl_cons, List.foldl_cons, mark_count, ih]

/-- A message more in the context is a message more in the cache. -/
theorem contextStatsCache_append {context context' : SessionContext} {m : AgentMessage}
    (hmessages : context'.messages = context.messages ++ [m])
    (hboundary : context'.compactionBoundaryIndex = context.compactionBoundaryIndex)
    (hlow : ∀ b ∈ context.compactionBoundaryIndex, b < (context.messages.length : Int))
    (version version' : Nat) (leafId leafId' : Json) :
    contextStatsCache context' version' leafId'
      = (contextStatsCache context version leafId).append m version' leafId' := by
  have hafter : context.compactionBoundaryIndex.all
      (fun b => b < (context.messages.length : Int)) = true := by
    cases hb : context.compactionBoundaryIndex with
    | none => rfl
    | some b => simpa using hlow b (by rw [hb]; rfl)
  have hmark := mark_foldl context.compactionBoundaryIndex context.messages.zipIdx
    (.empty version leafId) version' leafId'
  unfold contextStatsCache
  rw [hmessages, hboundary, List.zipIdx_append, List.foldl_append, Nat.zero_add]
  show ContextStatsCache.count _ m _ = _
  rw [show ContextStatsCache.empty version' leafId'
    = (ContextStatsCache.empty version leafId).mark version' leafId' from rfl, hmark, mark_count,
    hafter]
  rfl

/-- One message more, in the counts and in what is used. -/
theorem count_fields (cache : ContextStatsCache) (m : AgentMessage) (after : Bool) :
    (cache.count m after).messageCounts = cache.messageCounts.add (messageTypeForStatistics m) 1
      ∧ (cache.count m after).estimatedTokens
        = cache.estimatedTokens.add (messageTypeForStatistics m) (estimateTokens m)
      ∧ (cache.count m after).usedTokens = match m.usageAnchor?, after with
        | some total, true => total
        | _, _ => cache.usedTokens + estimateTokens m := by
  unfold ContextStatsCache.count ContextStatsCache.usedTokens
  cases hanchor : m.usageAnchor? with
  | none => cases cache.usageAnchor <;> simp [Int.add_assoc]
  | some total =>
    cases after with
    | true => simp
    | false => cases cache.usageAnchor <;> simp [Int.add_assoc]

/-- What the cache counts is what a full scan finds; `trailing` is what the scan passed before. -/
theorem foldl_count (boundary : Option Int) (version : Nat) (leafId : Json)
    (messages : List AgentMessage) :
    let cache := messages.zipIdx.foldl
      (fun cache item => cache.count item.1 (boundary.all (· < (item.2 : Int))))
      (ContextStatsCache.empty version leafId)
    (∀ trailing, estimateBack boundary messages.reverse trailing = cache.usedTokens + trailing)
      ∧ (cache.messageCounts, cache.estimatedTokens) = aggregateMessages messages := by
  induction messages using List.reverseRecOn with
  | nil => exact ⟨fun trailing => (Int.zero_add trailing).symm, rfl⟩
  | append_singleton messages m ih =>
    obtain ⟨hused, hcounts⟩ := ih
    simp only [List.zipIdx_append, List.foldl_append, List.reverse_append, Nat.zero_add] at hused hcounts ⊢
    generalize messages.zipIdx.foldl
      (fun cache item => cache.count item.1 (boundary.all (· < (item.2 : Int))))
      (ContextStatsCache.empty version leafId) = cache at hused hcounts ⊢
    obtain ⟨hcount, htokens, hnext⟩ :=
      count_fields cache m (boundary.all (· < (messages.length : Int)))
    refine ⟨?_, ?_⟩
    · intro trailing
      show estimateBack boundary (m :: messages.reverse) trailing = _
      show _ = (cache.count m (boundary.all (· < (messages.length : Int)))).usedTokens + trailing
      rw [hnext, estimateBack]
      cases m.usageAnchor? with
      | none => simp only [hused]; omega
      | some total =>
        cases hafter : boundary.all (fun b => b < (messages.length : Int)) with
        | true => simp [hafter]
        | false => simp only [List.length_reverse, hafter, hused]; simp; omega
    · show ((cache.count m _).messageCounts, (cache.count m _).estimatedTokens) = _
      rw [hcount, htokens, aggregateMessages, List.foldl_append]
      rw [aggregateMessages] at hcounts
      rw [← hcounts]
      rfl

/-- **The cache of a context** holds what a full scan of its messages finds. -/
theorem contextStatsCache_eq_scan (context : SessionContext) (version : Nat) (leafId : Json) :
    (contextStatsCache context version leafId).usedTokens
        = estimateContextTokens context.messages context.compactionBoundaryIndex
      ∧ (contextStatsCache context version leafId).messageCounts
        = (aggregateMessages context.messages).1
      ∧ (contextStatsCache context version leafId).estimatedTokens
        = (aggregateMessages context.messages).2 := by
  obtain ⟨hused, hcounts⟩ :=
    foldl_count context.compactionBoundaryIndex version leafId context.messages
  obtain ⟨hcount, htokens⟩ := Prod.mk.inj hcounts
  refine ⟨?_, hcount, htokens⟩
  rw [estimateContextTokens, hused 0, Int.add_zero]
  rfl

end Cache

/-! ### The context at another time and behind one more message -/

section Context

variable {now : Int}

/-- What an entry contributes is the same at any time, but for time stamps. -/
theorem entryMessages_key (now now' : Int) (entry : Dict) :
    (entryMessages now entry).map (List.map statKey)
      = (entryMessages now' entry).map (List.map statKey) := by
  unfold entryMessages
  split
  · rfl
  · split
    · rfl
    · split
      · cases retainedMessages (Dict.getD entry "retainedTail") <;> rfl
      · split <;> rfl

/-- What the loop over the ordered branch keeps, but for time stamps. -/
def ContextScan.key (scan : ContextScan) :
    List (MessageType × Nat × Option Int) × Bool × Option Int :=
  (scan.messages.map statKey, scan.freshContextStarted, scan.compactionBoundaryIndex)

theorem scan_key (now now' : Int) (latest : Option Nat) (ids : List String) (entries : List Dict)
    {scan scan' : ContextScan} (h : scan.key = scan'.key) :
    (entries.foldlM (ContextScan.step now latest ids) scan).map ContextScan.key
      = (entries.foldlM (ContextScan.step now' latest ids) scan').map ContextScan.key := by
  induction entries generalizing scan scan' with
  | nil => exact congrArg Except.ok h
  | cons entry entries ih =>
    obtain ⟨hmessages, hfresh, hboundary⟩ : scan.messages.map statKey = scan'.messages.map statKey
        ∧ scan.freshContextStarted = scan'.freshContextStarted
        ∧ scan.compactionBoundaryIndex = scan'.compactionBoundaryIndex := by
      simpa [ContextScan.key] using h
    have hlength : scan.messages.length = scan'.messages.length := by
      simpa using congrArg List.length hmessages
    have hentry := entryMessages_key now now' entry
    rw [List.foldlM_cons, List.foldlM_cons]
    unfold ContextScan.step
    cases hthen : entryMessages now entry with
    | error e =>
      cases hlater : entryMessages now' entry with
      | error e' =>
        rw [hthen, hlater] at hentry
        obtain rfl := Except.error.inj hentry
        rfl
      | ok ms' =>
        rw [hthen, hlater] at hentry
        exact absurd hentry (by simp [Except.map])
    | ok ms =>
      cases hlater : entryMessages now' entry with
      | error e' =>
        rw [hthen, hlater] at hentry
        exact absurd hentry (by simp [Except.map])
      | ok ms' =>
        rw [hthen, hlater] at hentry
        apply ih
        have hms : ms.map statKey = ms'.map statKey := Except.ok.inj hentry
        simp [ContextScan.key, hmessages, hms, hfresh, hboundary, hlength]

/-- **`build_context` at another time** differs in time stamps only. -/
theorem buildContext_key (s : Session) (now now' : Int) :
    (s.buildContext now).map contextKey = (s.buildContext now').map contextKey := by
  unfold Session.buildContext
  cases s.getBranch with
  | error e => rfl
  | ok branch =>
    cases s.getFullBranch with
    | error e => rfl
    | ok full =>
      cases hstate : full.foldlM BranchState.step {} with
      | error e => simp [hstate, bind, Except.bind, Except.map]
      | ok state =>
        have hscan := scan_key now now' (latestCompaction branch) (postCompactionIds branch)
          (orderBranch branch) (rfl : ContextScan.key {} = ContextScan.key {})
        simp only [bind, Except.bind, hstate]
        cases hthen : (orderBranch branch).foldlM (ContextScan.step now (latestCompaction branch)
            (postCompactionIds branch)) {} with
        | error e =>
          cases hlater : (orderBranch branch).foldlM (ContextScan.step now' (latestCompaction branch)
              (postCompactionIds branch)) {} with
          | error e' =>
            rw [hthen, hlater] at hscan
            obtain rfl := Except.error.inj hscan
            rfl
          | ok scan' =>
            rw [hthen, hlater] at hscan
            exact absurd hscan (by simp [Except.map])
        | ok scan =>
          cases hlater : (orderBranch branch).foldlM (ContextScan.step now' (latestCompaction branch)
              (postCompactionIds branch)) {} with
          | error e' =>
            rw [hthen, hlater] at hscan
            exact absurd hscan (by simp [Except.map])
          | ok scan' =>
            rw [hthen, hlater] at hscan
            obtain ⟨hmessages, hfresh, hboundary⟩ : scan.messages.map statKey = scan'.messages.map statKey
                ∧ scan.freshContextStarted = scan'.freshContextStarted
                ∧ scan.compactionBoundaryIndex = scan'.compactionBoundaryIndex := by
              simpa [ContextScan.key] using Except.ok.inj hscan
            have hlength : scan.messages.length = scan'.messages.length := by
              simpa using congrArg List.length hmessages
            simp [contextKey, pure, Except.pure, Except.map, hmessages, hboundary, hlength]

/-- Contexts that are built at different times: both or neither, with the same keys. -/
theorem buildContext_later {s : Session} {context : SessionContext}
    (h : s.buildContext now = .ok context) (later : Int) :
    ∃ context', s.buildContext later = .ok context' ∧ contextKey context' = contextKey context := by
  have hkey := buildContext_key s now later
  rw [h] at hkey
  obtain ⟨context', hcontext', hsame⟩ := map_eq_ok_iff.mp hkey.symm
  exact ⟨context', hcontext', hsame⟩

/-- What the cache is extended by is what the entry contributes to the context. -/
theorem contextMessage_spec {s : Session} {stamp : Stamp} {kind : String} {payload : Dict}
    (hplain : Session.PlainPayload payload) {m : AgentMessage}
    (h : contextMessage now (s.appendEntry stamp kind payload).1 = .ok (some m)) :
    kind ≠ "compaction" ∧ entryMessages now (s.appendEntry stamp kind payload).1 = .ok [m]
      ∧ ∀ state : BranchState, ∃ state', state.step (s.appendEntry stamp kind payload).1 = .ok state' := by
  have htype : ∀ other, isType (s.appendEntry stamp kind payload).1 other = decide (kind = other) :=
    isType_appendEntry hplain
  simp only [contextMessage, entryMessages, BranchState.step, htype] at h ⊢
  by_cases hmessage : kind = "message"
  · subst hmessage
    simp only [decide_true, if_true] at h
    obtain ⟨m', hdecode, hm⟩ := map_eq_ok_iff.mp h
    obtain rfl := Option.some.inj hm
    refine ⟨by simp, bind_eq_ok_iff.mpr ⟨m', hdecode, rfl⟩, ?_⟩
    intro state
    unfold decodeMessage at hdecode
    split at hdecode
    · next items hitems =>
      simp [hitems]
      split <;> exact ⟨_, rfl⟩
    · simp at hdecode
  · by_cases hcustom : kind = "custom_message"
    · subst hcustom
      simp at h
      exact ⟨by simp, by simp [h], fun state => ⟨state, by simp⟩⟩
    · simp [hmessage, hcustom] at h

end Context

/-! ### What a written entry adds -/

section Written

variable {s : Session} {stamp : Stamp} {payload : Dict}

/-- An entry carries no usage, or one that was written from a `Usage`. -/
def CarriesUsage (entry : Dict) : Prop :=
  entryUsage entry = .ok none ∨ ∃ u : Usage, entryUsage entry = .ok (some u.toDict)

/-- Such an entry can be added to the totals. -/
theorem CarriesUsage.add_ok {entry : Dict} (h : CarriesUsage entry) (toFloat : Json → Rat)
    (stats : LifetimeStats) : ∃ stats', stats.add toFloat entry = .ok stats' := by
  unfold LifetimeStats.add
  obtain h | ⟨u, h⟩ := h
  · rw [h]
    exact ⟨_, rfl⟩
  · obtain ⟨hinput, -, hread, hwrite, htotal, hcost, -⟩ := usage_get u
    have hint : ∀ {key n}, Dict.get u.toDict key = some (.int n) → usageInt u.toDict key = .ok n := by
      intro key n hget
      simp [usageInt, Dict.getD, hget]
    obtain ⟨cost, hcosts⟩ : ∃ cost, usageCost toFloat u.toDict = .ok cost := by
      rw [usageCost, Dict.getD, hcost, Option.getD_some]
      cases htruthy : (Json.obj u.cost).truthy with
      | false => exact ⟨0, rfl⟩
      | true => exact ⟨_, rfl⟩
    rw [h]
    exact ⟨_, by
      simp only [bind, Except.bind, hint htotal, hcosts, cacheUsage, hint hinput, hint hread, hint hwrite]
      rfl⟩

/-- The usage of a stored usage. -/
theorem storedUsage_toDict (u : Usage) : storedUsage (.obj u.toDict) = .ok (some u.toDict) := by
  simp [storedUsage, Usage.toDict, Json.truthy, Json.asDict?]

/-- An entry of another type carries no usage. -/
theorem carriesUsage_of_kind {kind : String} (hplain : Session.PlainPayload payload)
    (hkind : kind ∉ ["message", "compaction", "branch_summary"]) :
    CarriesUsage (s.appendEntry stamp kind payload).1 := by
  have htype : ∀ other, isType (s.appendEntry stamp kind payload).1 other = decide (kind = other) :=
    isType_appendEntry hplain
  simp only [List.mem_cons, List.not_mem_nil, or_false, not_or] at hkind
  exact .inl (by simp [entryUsage, htype, hkind])

/-- A compaction or a branch summary carries the usage that it was given. -/
theorem carriesUsage_of_summary {kind : String} (hplain : Session.PlainPayload payload)
    (hkind : kind = "compaction" ∨ kind = "branch_summary") {usage : Option Usage}
    (husage : Dict.get payload "usage" = usage.map fun u => .obj u.toDict) :
    CarriesUsage (s.appendEntry stamp kind payload).1 := by
  have htype : ∀ other, isType (s.appendEntry stamp kind payload).1 other = decide (kind = other) :=
    isType_appendEntry hplain
  have hget : Dict.get (s.appendEntry stamp kind payload).1 "usage" = _ :=
    (Session.newEntry_get_payload (by simp [Session.entryKeys]) s stamp kind payload).trans husage
  have hnot : kind ≠ "message" := by
    obtain rfl | rfl := hkind <;> simp
  have hentry : entryUsage (s.appendEntry stamp kind payload).1
      = storedUsage (Dict.getD (s.appendEntry stamp kind payload).1 "usage") := by
    obtain rfl | rfl := hkind <;> simp [entryUsage, htype]
  rw [CarriesUsage, hentry, Dict.getD, hget]
  cases usage with
  | none => exact .inl rfl
  | some u => exact .inr ⟨u, storedUsage_toDict u⟩

/-- A message carries its usage. -/
theorem carriesUsage_message (m : AgentMessage) :
    CarriesUsage (s.appendMessage stamp m).1 := by
  have hplain : Session.PlainPayload [("message", .obj (messageToDict m))] :=
    Session.plainPayload_of_keys (by simp [Session.entryKeys])
  have htype : isType (s.appendMessage stamp m).1 "message" = true := isType_appendEntry hplain "message"
  have hget : Dict.get (s.appendMessage stamp m).1 "message" = some (.obj (messageToDict m)) :=
    Session.newEntry_get_payload (by simp [Session.entryKeys]) s stamp "message" _
  have htruthy : (Json.obj (messageToDict m)).truthy = true := by
    cases m <;> simp [messageToDict, Json.truthy]
  have hentry : entryUsage (s.appendMessage stamp m).1
      = if Dict.getD (messageToDict m) "role" = .str "assistant" then
          storedUsage (Dict.getD (messageToDict m) "usage") else .ok none := by
    rw [entryUsage, if_pos htype, Dict.getD, hget, Option.getD_some, htruthy]
    rfl
  rw [CarriesUsage, hentry]
  cases m with
  | assistant m =>
    refine .inr ⟨m.usage, ?_⟩
    rw [if_pos ((role_messageToDict _).mpr rfl), usage_messageToDict, storedUsage_toDict]
  | user m => exact .inl (if_neg fun h => Bool.noConfusion ((role_messageToDict _).mp h))
  | toolResult m => exact .inl (if_neg fun h => Bool.noConfusion ((role_messageToDict _).mp h))

/-- An entry of a type that no statistics read. -/
theorem other_ok {kind : String} (now : Int) (hkeys : ∀ item ∈ payload, item.1 ∉ Session.entryKeys)
    (hkind : kind ∉ ["message", "compaction", "branch_summary", "custom_message"]) :
    CarriesUsage (s.appendEntry stamp kind payload).1
      ∧ ∃ message, contextMessage now (s.appendEntry stamp kind payload).1 = .ok message := by
  have hplain := Session.plainPayload_of_keys hkeys
  have htype : ∀ other, isType (s.appendEntry stamp kind payload).1 other = decide (kind = other) :=
    isType_appendEntry hplain
  simp only [List.mem_cons, List.not_mem_nil, or_false, not_or] at hkind
  refine ⟨carriesUsage_of_kind hplain (by simp [hkind]), none, ?_⟩
  simp [contextMessage, htype, hkind]

/-- A summary reads back as no message. -/
theorem summary_ok {kind : String} (now : Int) (hplain : Session.PlainPayload payload)
    (hkind : kind = "compaction" ∨ kind = "branch_summary") (usage : Option Usage)
    (husage : Dict.get payload "usage" = usage.map fun u => .obj u.toDict) :
    CarriesUsage (s.appendEntry stamp kind payload).1
      ∧ ∃ message, contextMessage now (s.appendEntry stamp kind payload).1 = .ok message := by
  have htype : ∀ other, isType (s.appendEntry stamp kind payload).1 other = decide (kind = other) :=
    isType_appendEntry hplain
  refine ⟨carriesUsage_of_summary hplain hkind husage, none, ?_⟩
  obtain rfl | rfl := hkind <;> simp [contextMessage, htype]

/-- A message reads back. -/
theorem message_ok (now : Int) (m : AgentMessage) :
    CarriesUsage (s.appendMessage stamp m).1
      ∧ ∃ message, contextMessage now (s.appendMessage stamp m).1 = .ok message := by
  have hplain : Session.PlainPayload [("message", .obj (messageToDict m))] :=
    Session.plainPayload_of_keys (by simp [Session.entryKeys])
  have htype : isType (s.appendMessage stamp m).1 "message" = true := isType_appendEntry hplain "message"
  have hget : Dict.get (s.appendMessage stamp m).1 "message" = some (.obj (messageToDict m)) :=
    Session.newEntry_get_payload (by simp [Session.entryKeys]) s stamp "message" _
  refine ⟨carriesUsage_message m, some m.decoded, ?_⟩
  rw [contextMessage, if_pos htype, hget, decodeMessage, messageFromDict_messageToDict]
  rfl

/-- A custom message reads back as a user message. -/
theorem custom_ok (now : Int) (customType content : String) (display : Bool) (details : Json) :
    CarriesUsage (s.appendCustomMessage stamp customType content display details).1
      ∧ ∃ message, contextMessage now
          (s.appendCustomMessage stamp customType content display details).1 = .ok message := by
  have hplain : Session.PlainPayload [("customType", .str customType), ("content", .str content),
      ("display", .bool display), ("details", details)] :=
    Session.plainPayload_of_keys (by simp [Session.entryKeys])
  have htype : ∀ other, isType (s.appendCustomMessage stamp customType content display details).1 other
      = decide ("custom_message" = other) :=
    isType_appendEntry hplain
  refine ⟨carriesUsage_of_kind hplain (by simp), ?_⟩
  rw [contextMessage, if_neg (by simp [htype]), if_pos (by simp [htype])]
  exact ⟨_, rfl⟩

/-- An optional item answers to its key. -/
theorem get_optionalItem_self (key : String) (value : Option Json) :
    Dict.get (Session.optionalItem key value) key = value := by
  cases value <;> simp [Session.optionalItem, Dict.get_cons]

/-- The keys of a payload with two optional items. -/
theorem keys_of_parts {items : Dict} {key₁ key₂ : String} {value₁ value₂ : Option Json}
    (hitems : ∀ item ∈ items, item.1 ∉ Session.entryKeys) (h₁ : key₁ ∉ Session.entryKeys)
    (h₂ : key₂ ∉ Session.entryKeys) :
    ∀ item ∈ items ++ Session.optionalItem key₁ value₁ ++ Session.optionalItem key₂ value₂,
      item.1 ∉ Session.entryKeys := by
  intro item hitem
  simp only [List.mem_append] at hitem
  rcases hitem with (h | h) | h
  · exact hitems item h
  · rwa [Session.mem_optionalItem h]
  · rwa [Session.mem_optionalItem h]

/-- The usage of a compaction's payload. -/
theorem compactionPayload_usage (a : Session.CompactionArgs) :
    Dict.get a.payload "usage" = a.usage.map fun u => .obj u.toDict := by
  have htail : Dict.get (if a.retainedTail = [] then []
      else [("retainedTail", .arr (a.retainedTail.map fun m => .obj (messageToDict m)))]) "usage"
      = none := by
    split <;> simp [Dict.get_cons]
  simp only [Session.CompactionArgs.payload, Dict.get_append, get_optionalItem_self, htail,
    Session.get_optionalItem (show "details" ≠ "usage" by decide),
    Session.get_optionalItem (show "firstKeptEntryId" ≠ "usage" by decide)]
  simp [Dict.get_cons]

/-- **Written entries.** What a call writes can be added to the totals, and reads back. -/
theorem written_ok {op : Session.Op} {entry : Dict} {s' : Session} (now : Int)
    (h : op.apply s stamp = .ok (entry, s')) :
    CarriesUsage entry ∧ ∃ message, contextMessage now entry = .ok message := by
  cases op with
  | appendMessage m =>
    obtain rfl := (Prod.mk.inj (Except.ok.inj h)).1
    exact message_ok now m
  | appendCompaction args =>
    obtain rfl := (Prod.mk.inj (Except.ok.inj h)).1
    exact summary_ok now (Session.compactionPayload_plain args) (.inl rfl) args.usage
      (compactionPayload_usage args)
  | appendBranchSummary fromId summary usage details fromHook =>
    obtain rfl := (Prod.mk.inj (Except.ok.inj h)).1
    refine summary_ok now (Session.plainPayload_of_keys ?_) (.inr rfl) usage ?_
    · exact keys_of_parts (by simp [Session.entryKeys]) (by simp [Session.entryKeys])
        (by simp [Session.entryKeys])
    · simp only [Dict.get_append, get_optionalItem_self, Dict.get_cons,
        Session.get_optionalItem (show "details" ≠ "usage" by decide)]
      simp
  | appendCustomMessage customType content display details =>
    obtain rfl := (Prod.mk.inj (Except.ok.inj h)).1
    exact custom_ok now customType content display details
  | appendRunEnd runId status durationMs error =>
    obtain rfl := (Prod.mk.inj (Except.ok.inj h)).1
    refine other_ok now ?_ (by simp)
    exact keys_of_parts (by simp [Session.entryKeys]) (by simp [Session.entryKeys])
      (by simp [Session.entryKeys])
  | setLabel targetId label =>
    simp only [Session.Op.apply, Session.setLabel] at h
    split at h
    · exact absurd h (by simp)
    · obtain rfl := (Prod.mk.inj (Except.ok.inj h)).1
      exact other_ok now (by simp [Session.entryKeys]) (by simp)
  | setLeafId leafId =>
    simp only [Session.Op.apply, Session.setLeafId] at h
    split at h
    · exact absurd h (by simp)
    · obtain rfl := (Prod.mk.inj (Except.ok.inj h)).1
      exact other_ok now (by simp [Session.entryKeys]) (by simp)
  | _ =>
    obtain rfl := (Prod.mk.inj (Except.ok.inj h)).1
    exact other_ok now (by simp [Session.entryKeys]) (by simp)

end Written

/-! ### Totals and cache along a run -/

namespace SessionHandle

/-- The handles that calls and reads build from an opened session, whose entries are a tree. -/
inductive Reachable (round : Rounding) (toFloat : Json → Rat) : SessionHandle → Prop
  | init {s : Session} {h : SessionHandle} (hs : s.Tree)
      (hinit : SessionHandle.init toFloat s = .ok h) : Reachable round toFloat h
  | call {h h' : SessionHandle} {stamp : Stamp} {now : Int} {op : Session.Op}
      (before : Reachable round toFloat h)
      (unused : (h.session.byId (stamp.uuids 100).text).isNone)
      (hcall : h.call toFloat stamp now op = .ok h') : Reachable round toFloat h'
  | stats {h h' : SessionHandle} {now : Int} {contextWindow : Option Int} {result : SessionStatistics}
      (before : Reachable round toFloat h)
      (hstats : h.stats round now contextWindow = .ok (result, h')) : Reachable round toFloat h'

/-- Totals and cache are what a full scan gives, at whatever time. -/
structure Valid (toFloat : Json → Rat) (h : SessionHandle) : Prop where
  session : h.session.Tree
  lifetime : lifetimeStats toFloat h.session.entries = .ok h.lifetime
  cache : ∀ cache ∈ h.cache, cache.version = h.version →
    ∀ now, ∃ context, h.session.buildContext now = .ok context
      ∧ cache = contextStatsCache context h.version h.session.currentLeafId

/-- The totals behind one more entry. -/
theorem lifetimeStats_append {toFloat : Json → Rat} {entries : List Dict} {stats stats' : LifetimeStats}
    {entry : Dict} (h : lifetimeStats toFloat entries = .ok stats)
    (hadd : stats.add toFloat entry = .ok stats') :
    lifetimeStats toFloat (entries ++ [entry]) = .ok stats' := by
  unfold lifetimeStats at h ⊢
  rw [List.foldlM_append, h]
  refine bind_eq_ok_iff.mpr ⟨stats, rfl, ?_⟩
  rw [List.foldlM_cons]
  exact bind_eq_ok_iff.mpr ⟨stats', hadd, rfl⟩

/-- **Appends** keep totals and cache. -/
theorem Valid.append {toFloat : Json → Rat} {h h' : SessionHandle} (hvalid : h.Valid toFloat)
    {stamp : Stamp} {now : Int} {kind : String} {payload : Dict}
    (unused : (h.session.byId (stamp.uuids 100).text).isNone)
    (hplain : Session.PlainPayload payload)
    (hreach : (h.session.appendEntry stamp kind payload).2.Tree)
    (happend : h.append toFloat now (h.session.appendEntry stamp kind payload).1
      (h.session.appendEntry stamp kind payload).2 = .ok h') : h'.Valid toFloat := by
  have htree := hvalid.session
  rw [SessionHandle.append, bind_eq_ok_iff] at happend
  obtain ⟨lifetime, hadd, happend⟩ := happend
  rw [bind_eq_ok_iff] at happend
  obtain ⟨message, hmessage, happend⟩ := happend
  obtain rfl := pure_eq_ok_iff.mp happend
  refine ⟨hreach, lifetimeStats_append hvalid.lifetime hadd, ?_⟩
  intro cache hcache hversion later
  -- There is a cache only where the old one was valid and the entry is a message.
  split at hcache
  · next m old hold =>
    split at hcache
    · next hcurrent =>
      obtain ⟨context, hcontext, hcached⟩ := hvalid.cache old hold hcurrent.1 now
      obtain ⟨hkind, hentry, hstep⟩ := contextMessage_spec hplain hmessage
      obtain ⟨state, hstate⟩ :=
        hstep ⟨context.thinkingLevel, context.model, context.activeToolNames⟩
      have hgrown := buildContext_append htree unused hplain hkind hcontext hstate hentry
      obtain ⟨context', hcontext', hkey⟩ := buildContext_later hgrown later
      refine ⟨context', hcontext', ?_⟩
      obtain rfl := Option.some.inj hcache
      rw [contextStatsCache_congr hkey, hcached]
      refine (contextStatsCache_append ?_ ?_ (boundary_lt hcontext) _ _ _ _).symm
      · rfl
      · rfl
    · simp at hcache
  · simp at hcache

/-- A leaf move, and an append that is no message, drop the cache. -/
theorem Valid.dropped {toFloat : Json → Rat} {h h' : SessionHandle} (hvalid : h.Valid toFloat)
    (now : Int) {entry : Dict} {s : Session} (hreach : s.Tree)
    (hentries : s.entries = h.session.entries ++ [entry])
    (hcall : h.moveLeaf toFloat entry s = .ok h'
      ∨ contextMessage now entry = .ok none ∧ h.append toFloat now entry s = .ok h') :
    h'.Valid toFloat := by
  have hlifetime : ∀ {stats}, h.lifetime.add toFloat entry = .ok stats →
      lifetimeStats toFloat s.entries = .ok stats :=
    fun hadd => hentries ▸ lifetimeStats_append hvalid.lifetime hadd
  obtain hmoved | ⟨hnone, happend⟩ := hcall
  · obtain ⟨lifetime, hadd, hmoved⟩ := bind_eq_ok_iff.mp hmoved
    obtain rfl := pure_eq_ok_iff.mp hmoved
    exact ⟨hreach, hlifetime hadd, by simp⟩
  · obtain ⟨lifetime, hadd, happend⟩ := bind_eq_ok_iff.mp happend
    rw [hnone] at happend
    obtain rfl := pure_eq_ok_iff.mp happend
    exact ⟨hreach, hlifetime hadd, by simp⟩

/-- **Calls** keep totals and cache. -/
theorem Valid.call {toFloat : Json → Rat} {h h' : SessionHandle} (hvalid : h.Valid toFloat)
    {stamp : Stamp} {now : Int} {op : Session.Op}
    (unused : (h.session.byId (stamp.uuids 100).text).isNone)
    (hcall : h.call toFloat stamp now op = .ok h') : h'.Valid toFloat := by
  rw [SessionHandle.call, bind_eq_ok_iff] at hcall
  obtain ⟨⟨entry, s⟩, happly, hcall⟩ := hcall
  have hreach : s.Tree := hvalid.session.call unused happly
  obtain ⟨kind, payload, -, hplain, heq⟩ | ⟨id, -, hentry, hs⟩ := Session.Op.apply_cases happly
  · obtain ⟨rfl, rfl⟩ := Prod.mk.inj heq
    cases op with
    | setLeafId leafId => exact hvalid.dropped now hreach rfl (.inl hcall)
    | _ => exact hvalid.append unused hplain hreach hcall
  · have hentries : s.entries = h.session.entries ++ [entry] := by rw [hs]
    have hplain : Session.PlainPayload [("targetId", Session.optionalStr id)] :=
      Session.plainPayload_of_keys (by simp [Session.entryKeys])
    -- A `leaf` record is no message, whatever wrote it.
    have hnone : contextMessage now entry = .ok none := by
      have htype : ∀ other, isType entry other = decide ("leaf" = other) :=
        fun other => hentry ▸ isType_appendEntry hplain other
      simp [contextMessage, htype]
    cases op with
    | setLeafId leafId => exact hvalid.dropped now hreach hentries (.inl hcall)
    | _ => exact hvalid.dropped now hreach hentries (.inr ⟨hnone, hcall⟩)

/-- **Reads** keep totals and cache. -/
theorem Valid.stats {round : Rounding} {toFloat : Json → Rat} {h h' : SessionHandle}
    (hvalid : h.Valid toFloat) {now : Int} {contextWindow : Option Int} {result : SessionStatistics}
    (hstats : h.stats round now contextWindow = .ok (result, h')) : h'.Valid toFloat := by
  rw [SessionHandle.stats, bind_eq_ok_iff] at hstats
  obtain ⟨cache, hcache, hstats⟩ := hstats
  obtain ⟨-, rfl⟩ := Prod.mk.inj (pure_eq_ok_iff.mp hstats)
  refine ⟨hvalid.session, hvalid.lifetime, ?_⟩
  intro found hfound hversion later
  obtain rfl := Option.some.inj hfound
  unfold currentCache at hcache
  split at hcache
  · next old hold =>
    obtain rfl := Except.ok.inj hcache
    exact hvalid.cache old (Option.filter_eq_some_iff.mp hold).1 hversion later
  · obtain ⟨context, hcontext, rfl⟩ := map_eq_ok_iff.mp hcache
    obtain ⟨context', hcontext', hkey⟩ := buildContext_later hcontext later
    exact ⟨context', hcontext', (contextStatsCache_congr hkey _ _).symm⟩

theorem Reachable.valid {round : Rounding} {toFloat : Json → Rat} {h : SessionHandle}
    (hr : Reachable round toFloat h) : h.Valid toFloat := by
  induction hr with
  | init hs hinit =>
    obtain ⟨lifetime, hlifetime, hinit⟩ := bind_eq_ok_iff.mp hinit
    obtain rfl := pure_eq_ok_iff.mp hinit
    exact ⟨hs, hlifetime, by simp⟩
  | call _ unused hcall ih => exact ih.call unused hcall
  | stats _ hstats ih => exact ih.stats hstats

/-- A call raises only what the operation raises before it writes. -/
theorem call_ok {toFloat : Json → Rat} (h : SessionHandle) {stamp : Stamp} (now : Int)
    {op : Session.Op} {entry : Dict} {s : Session}
    (happly : op.apply h.session stamp = .ok (entry, s)) :
    ∃ h', h.call toFloat stamp now op = .ok h' ∧ h'.session = s := by
  obtain ⟨hcarries, message, hmessage⟩ := written_ok now happly
  obtain ⟨lifetime, hadd⟩ := hcarries.add_ok toFloat h.lifetime
  rw [SessionHandle.call, happly]
  have happend : ∃ h', h.append toFloat now entry s = .ok h' ∧ h'.session = s := by
    rw [append, hadd, hmessage]
    exact ⟨_, rfl, rfl⟩
  cases op with
  | setLeafId leafId =>
    show ∃ h', h.moveLeaf toFloat entry s = .ok h' ∧ h'.session = s
    rw [moveLeaf, hadd]
    exact ⟨_, rfl, rfl⟩
  | _ => exact happend

/-- **Statistics.** Along every sequence of writes, leaf moves and reads, `stats` returns what
    `_stats_full` returns. -/
theorem stats_eq_full {round : Rounding} {toFloat : Json → Rat} {h : SessionHandle}
    (hr : Reachable round toFloat h) (now now' : Int) (contextWindow : Option Int) :
    (h.stats round now contextWindow).map Prod.fst
      = h.statsFull round toFloat now' contextWindow := by
  have hvalid := hr.valid
  obtain ⟨usages, husages, hstatistics⟩ := cacheStatistics_of_lifetime round hvalid.lifetime
  have hfull : h.statsFull round toFloat now' contextWindow
      = (h.session.buildContext now').map fun context =>
        { messageCount := h.lifetime.messageCount
          totalTokens := h.lifetime.totalTokens
          costTotal := h.lifetime.cost
          context := contextStatistics round context.messages contextWindow
            context.compactionBoundaryIndex
          cache := h.lifetime.cache round } := by
    rw [SessionHandle.statsFull, hvalid.lifetime, husages]
    cases h.session.buildContext now' <;> simp [hstatistics, bind, Except.bind, pure, Except.pure, Except.map]
  have hscan : ∀ context : SessionContext, contextStatistics round context.messages contextWindow
        context.compactionBoundaryIndex
      = contextStatisticsFromAggregates round
          (contextStatsCache context h.version h.session.currentLeafId).usedTokens
          (contextStatsCache context h.version h.session.currentLeafId).messageCounts
          (contextStatsCache context h.version h.session.currentLeafId).estimatedTokens
          contextWindow := by
    intro context
    obtain ⟨hused, hcounts, htokens⟩ :=
      contextStatsCache_eq_scan context h.version h.session.currentLeafId
    rw [contextStatistics, hused, hcounts, htokens]
  rw [hfull, SessionHandle.stats, currentCache]
  split
  · next cache hcache =>
    obtain ⟨hold, hversion⟩ := Option.filter_eq_some_iff.mp hcache
    obtain ⟨context, hcontext, rfl⟩ := hvalid.cache cache hold (by simpa using hversion) now'
    rw [hcontext]
    simp [hscan, bind, Except.bind, pure, Except.pure, Except.map]
  · have hkey := buildContext_key h.session now now'
    cases hthen : h.session.buildContext now with
    | error e =>
      cases hlater : h.session.buildContext now' with
      | error e' =>
        rw [hthen, hlater] at hkey
        obtain rfl := Except.error.inj hkey
        rfl
      | ok context' => rw [hthen, hlater] at hkey; exact absurd hkey (by simp [Except.map])
    | ok context =>
      obtain ⟨context', hlater, hsame⟩ := buildContext_later hthen now'
      rw [hlater]
      simp [hscan, contextStatsCache_congr hsame, bind, Except.bind, pure, Except.pure, Except.map]

/-- An empty session that was read once: its cache has counted nothing. -/
def readOnce : SessionHandle :=
  { session := emptySession, lifetime := {}, cache := some (.empty 0 .null) }

theorem readOnce_reachable (round : Rounding) (toFloat : Json → Rat) :
    readOnce.Reachable round toFloat := by
  have htree : emptySession.Tree := Session.reachable_tree (.create _)
  have hinit : init toFloat emptySession = .ok { session := emptySession, lifetime := {} } := rfl
  have hstats : ∃ result, ({ session := emptySession, lifetime := {} } : SessionHandle).stats round 0 none
      = .ok (result, readOnce) := ⟨_, rfl⟩
  obtain ⟨result, hstats⟩ := hstats
  exact .stats (.init htree hinit) hstats

/-- A message behind that read extends the cache. -/
theorem stats_eq_full_one_message : ∃ h : SessionHandle, h.cache.isSome = true
    ∧ (h.stats (fun value total => value / total) 0 (some 100)).map Prod.fst
      = h.statsFull (fun value total => value / total) (fun _ => 0) 1 (some 100) := by
  have hcall : ∃ h, readOnce.call (fun _ => 0) (digitStamp '1') 0 (.appendMessage (userText 0 "hi"))
      = .ok h ∧ h.cache.isSome = true := ⟨_, rfl, by decide +kernel⟩
  obtain ⟨h, hcall, hcache⟩ := hcall
  exact ⟨h, hcache, stats_eq_full (.call (readOnce_reachable _ _) rfl hcall) 0 1 (some 100)⟩

end SessionHandle

end AeloonRuntime
