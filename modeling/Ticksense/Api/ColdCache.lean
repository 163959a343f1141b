import Ticksense.Api.OhlcvPaths
import Ticksense.Lib.TimedCache

/-!
# The cold cache of `get_ohlcv` at work

`getOhlcv` asks the cold cache and the query engine in one go.  In the process there is an await in
between: other requests are answered while a query runs, also those with the same key.

* `Datetime.moment`, `cacheKey` — when the cache takes two keys for one.
* `coldHandler`, `getOhlcv_eq_serve` — the cold path as a handler with a cache.
* `cold_answers_fresh` — how old the bars of an answer may be, over any run.
* `cold_queries_spared` — how many queries the cache saves.
-/

namespace Ticksense

open TimedCache

/-! ## Keys -/

/-- Aware `datetime`s are equal, and have one hash, if they are the same instant.  A naive one is
equal to no aware one. -/
def Datetime.moment (ts : Datetime) : Bool × ℤ := (ts.utcoffset.isSome, ts.instant)

/-- A key, up to what a dictionary tells apart. -/
structure CacheKey where
  symbol : String
  limit : ℕ
  fromTs : Option (Bool × ℤ)
  toTs : Option (Bool × ℤ)
deriving DecidableEq

def cacheKey : ColdKey → CacheKey
  | (sym, limit, fromTs, toTs) => ⟨sym, limit, fromTs.map Datetime.moment, toTs.map Datetime.moment⟩

/-- The request is answered from the read model. -/
def OhlcvRequest.Hot (request : OhlcvRequest) : Prop :=
  request.fromTs = none ∧ request.toTs = none ∧ request.limit ≤ preloadedBars

instance (request : OhlcvRequest) : Decidable request.Hot :=
  inferInstanceAs (Decidable (_ ∧ _ ∧ _))

/-- A request that goes to the cold path. -/
abbrev ColdRequest := {request : OhlcvRequest // ¬ request.Hot}

variable (lib : Libraries) (sqlLower : String → String)

/-- `cache_key` -/
def ColdRequest.key (r : ColdRequest) : ColdKey :=
  (lib.upper r.1.symbol, r.1.limit, r.1.fromTs, r.1.toTs)

/-- The statement with its parameters. -/
def ColdRequest.query (r : ColdRequest) : ColdQuery :=
  ⟨lib.upper r.1.symbol, r.1.fromTs, r.1.toTs, r.1.limit⟩

/-! ## The handler -/

/-- What the engine may give for the statement of a request: a result on the table, or it raises. -/
def ColdRequest.Fetches (table : List MartBar) (r : ColdRequest)
    (fetched : Except PyError (List Row)) : Prop :=
  ∀ rows, fetched = .ok rows →
    ∃ bars, (r.query lib).Result sqlLower table bars ∧ rows = bars.map MartBar.row

/-- What the handler makes of it. -/
def coldAnswer (fetched : Except PyError (List Row)) (r : ColdRequest) :
    Except Failure OHLCVResponse :=
  match fetched with
  | .error e => .error (.exception e)
  | .ok rows => coldOhlcv lib (lib.upper r.1.symbol) rows

variable {lib}

lemma instant_of_moment {a b : Option Datetime}
    (h : a.map Datetime.moment = b.map Datetime.moment) :
    a.map Datetime.instant = b.map Datetime.instant := by
  have := congrArg (Option.map Prod.snd) h
  rwa [Option.map_map, Option.map_map] at this

lemma selects_of_key {r r' : ColdRequest} (h : cacheKey (r.key lib) = cacheKey (r'.key lib)) :
    (r.query lib).selects sqlLower = (r'.query lib).selects sqlLower ∧
      (r.query lib).limit = (r'.query lib).limit := by
  simp only [ColdRequest.key, cacheKey, CacheKey.mk.injEq] at h
  obtain ⟨hsymbol, hlimit, hfrom, hto⟩ := h
  refine ⟨funext fun bar => ?_, hlimit⟩
  have hall : ∀ (ts : Option Datetime) (p : ℤ → Bool),
      ts.all (fun t => p t.instant) = (ts.map Datetime.instant).all p := by
    intro ts p
    cases ts <;> rfl
  simp only [ColdRequest.query, ColdQuery.selects, hsymbol]
  rw [hall _ fun t => decide (t ≤ bar.windowStart), hall _ fun t => decide (bar.windowEnd ≤ t),
    hall _ fun t => decide (t ≤ bar.windowStart), hall _ fun t => decide (bar.windowEnd ≤ t),
    instant_of_moment hfrom, instant_of_moment hto]
  rfl

variable (lib)

/-- The cold path. -/
def coldHandler : Handler ColdRequest CacheKey OHLCVResponse Failure (Except PyError (List Row))
    (List MartBar) where
  key := fun r => cacheKey (r.key lib)
  Gives := ColdRequest.Fetches lib sqlLower
  answer := coldAnswer lib
  gives_congr := by
    intro table r r' fetched hkey hfetches rows hrows
    obtain ⟨bars, hresult, hbars⟩ := hfetches rows hrows
    obtain ⟨hselects, hlimit⟩ := selects_of_key sqlLower hkey
    refine ⟨bars, ?_, hbars⟩
    rwa [ColdQuery.Result, ← hselects, ← hlimit]
  answer_congr := by
    intro fetched r r' hkey
    have hsymbol : lib.upper r.1.symbol = lib.upper r'.1.symbol := congrArg CacheKey.symbol hkey
    simp only [coldAnswer, hsymbol]

/-- **The cold path of `getOhlcv` is this handler**, whatever the read model is. -/
lemma getOhlcv_eq_serve (m : ReadModel) (cache : CacheKey → Option OHLCVResponse)
    (fetched : Except PyError (List Row)) (r : ColdRequest) :
    (getOhlcv lib m (cache ∘ cacheKey) (fun _ => fetched) r.1).map
        (Prod.map id (Option.map cacheKey))
      = (coldHandler lib sqlLower).serve cache fetched r := by
  have hcold : (r.1.fromTs.isNone && r.1.toTs.isNone && decide (r.1.limit ≤ preloadedBars))
      = false := by
    have := r.2
    simp only [OhlcvRequest.Hot, not_and] at this
    simpa [Option.isNone_iff_eq_none] using this
  have hkey : (coldHandler lib sqlLower).key r = cacheKey (r.key lib) := rfl
  simp only [getOhlcv, hcold, Bool.false_eq_true, if_false, Function.comp_apply, Handler.serve,
    hkey]
  rw [ColdRequest.key]
  cases cache (cacheKey (lib.upper r.1.symbol, r.1.limit, r.1.fromTs, r.1.toTs)) with
  | some response => rfl
  | none =>
      cases fetched with
      | error e => rfl
      | ok rows =>
          show ((coldOhlcv lib (lib.upper r.1.symbol) rows).map _).map _ =
            (coldOhlcv lib (lib.upper r.1.symbol) rows).map _
          cases coldOhlcv lib (lib.upper r.1.symbol) rows <;> rfl

/-- `ttl=60`, in seconds -/
def coldTtl : ℚ := 60

/-- `maxsize=500` -/
def coldMaxsize : ℕ := 500

/-- The cold cache and the requests it has had. -/
abbrev ColdCache := System ColdRequest CacheKey OHLCVResponse Failure ℚ

/-- The process; `tableAt` is `mart_ohlcv` as it is at each instant. -/
abbrev ColdCache.Step (tableAt : ℚ → List MartBar) : ColdCache → ColdCache → Prop :=
  TimedCache.Step coldTtl (coldHandler lib sqlLower) tableAt coldMaxsize

variable {lib} {sqlLower}

lemma answer_eq_getOhlcv (m : ReadModel) {fetched : Except PyError (List Row)} {r : ColdRequest}
    {outcome : Except Failure OHLCVResponse}
    (h : (coldHandler lib sqlLower).answer fetched r = outcome) :
    (getOhlcv lib m (fun _ => none) (fun _ => fetched) r.1).map Prod.fst = outcome := by
  have hserve := congrArg (Except.map Prod.fst)
    (getOhlcv_eq_serve lib sqlLower m (fun _ => none) fetched r)
  rw [Handler.serve, h] at hserve
  have hfst : ∀ x : Except Failure (OHLCVResponse × Option ColdKey),
      (x.map (Prod.map id (Option.map cacheKey))).map Prod.fst = x.map Prod.fst := by
    intro x
    cases x <;> rfl
  rw [hfst] at hserve
  refine hserve.trans ?_
  cases outcome <;> rfl

/-- A request for one bar more than is preloaded. -/
def sampleColdRequest : ColdRequest := ⟨{ symbol := "btcusdt", limit := 61 }, by decide⟩

lemma fetches_idleTable :
    sampleColdRequest.Fetches sampleLibraries sampleLibraries.lower idleTable
      (.ok (idleTable.map MartBar.row)) := by
  rintro rows ⟨⟩
  refine ⟨idleTable, ⟨idleTable, ⟨?_, List.pairwise_singleton _ _⟩, rfl⟩, rfl⟩
  rw [List.filter_eq_self.mpr]
  intro bar hbar
  rw [List.mem_singleton.mp hbar]
  decide +kernel

/-- It comes at second 0 and is answered at second 1; it comes again at seconds 30 and 61. -/
lemma reaches_asked_again :
    ∃ (s : ColdCache) (response : OHLCVResponse),
      Machine.Reaches (ColdCache.Step sampleLibraries sampleLibraries.lower fun _ => idleTable)
        (System.fresh 0) s ∧
      s.started = [(sampleColdRequest, 61), (sampleColdRequest, 0)] ∧
      s.answers = [⟨sampleColdRequest, 30, .ok response, 30, false⟩,
        ⟨sampleColdRequest, 0, .ok response, 1, true⟩] := by
  obtain ⟨response, hanswer⟩ : ∃ response,
      coldAnswer sampleLibraries (.ok (idleTable.map MartBar.row)) sampleColdRequest
        = .ok response := ⟨_, rfl⟩
  let waiting : ColdCache :=
    ⟨1, fun _ => none, [(sampleColdRequest, 0)], [(sampleColdRequest, 0)], []⟩
  have hroom : waiting.Room coldTtl coldMaxsize
      ((coldHandler sampleLibraries sampleLibraries.lower).key sampleColdRequest) := by
    refine room_of_keys (K := {(coldHandler sampleLibraries sampleLibraries.lower).key
      sampleColdRequest}) (fun k v done hentry => ?_) (by simp [coldMaxsize])
      (Finset.mem_singleton_self _)
    cases hentry
  have hstart : Machine.Reaches
      (ColdCache.Step sampleLibraries sampleLibraries.lower fun _ => idleTable)
      (System.fresh 0) waiting :=
    (Relation.ReflTransGen.single (Step.start (r := sampleColdRequest) rfl)).tail
      (Step.pass (t := 1) (show (0 : ℚ) ≤ 1 by norm_num))
  have hrunning : waiting.running = [] ++ (sampleColdRequest, 0) :: [] := rfl
  have hvictim : (none : Option CacheKey).isSome ↔ ¬ waiting.Room coldTtl coldMaxsize
      ((coldHandler sampleLibraries sampleLibraries.lower).key sampleColdRequest) := by
    simpa using hroom
  have hanswered := (hstart.tail (Step.succeed hrunning zero_le_one (le_refl _) fetches_idleTable
    hanswer hvictim)).tail (Step.pass (t := 30) (show (1 : ℚ) ≤ 30 by norm_num))
  have hentry : ∀ t : ℚ, t < 61 →
      (System.mk t (waiting.put ((coldHandler sampleLibraries sampleLibraries.lower).key
        sampleColdRequest) response none) [] [(sampleColdRequest, 0)]
          [⟨sampleColdRequest, 0, .ok response, 1, true⟩] : ColdCache).get coldTtl
        ((coldHandler sampleLibraries sampleLibraries.lower).key sampleColdRequest)
      = some response := by
    intro t ht
    refine get_eq_some.mpr ⟨1, by simp [System.put, waiting], ?_⟩
    rw [coldTtl]
    linarith
  have hagain := (hanswered.tail (Step.hit (hentry 30 (by norm_num)))).tail
    (Step.pass (t := 61) (show (30 : ℚ) ≤ 61 by norm_num))
  refine ⟨_, response, hagain.tail (Step.start (r := sampleColdRequest) ?_), rfl, rfl⟩
  norm_num [System.get, System.put, coldTtl]

variable (lib) (sqlLower)

/-- **How old the bars of an answer are.**  In every run of requests that come together in any way,
an answer of the cold path is what the request itself would get without a cache, from the table as
it was at one instant of a query: its own, or the query of an answer that was given less than 60
seconds before to a request with the same symbol, limit and instants.  Failures are not repeated. -/
theorem cold_answers_fresh (tableAt : ℚ → List MartBar) {t : ℚ} {s : ColdCache}
    (h : Machine.Reaches (ColdCache.Step lib sqlLower tableAt) (System.fresh t) s)
    {a : Answer ColdRequest OHLCVResponse Failure ℚ} (ha : a ∈ s.answers) (m : ReadModel) :
    ∃ q ∈ s.answers, (q = a ∨ a.Repeats coldTtl (coldHandler lib sqlLower) q) ∧
      ∃ c fetched, q.asked ≤ c ∧ c ≤ q.given ∧
        a.request.Fetches lib sqlLower (tableAt c) fetched ∧
        (getOhlcv lib m (fun _ => none) (fun _ => fetched) a.request.1).map Prod.fst
          = a.outcome := by
  obtain ⟨q, hq, hfrom, c, fetched, hasked, hgiven, hfetches, hanswer⟩ := fresh_of_reaches h ha
  exact ⟨q, hq, hfrom, c, fetched, hasked, hgiven, hfetches, answer_eq_getOhlcv m hanswer⟩

/-- The second answer, 29 seconds after the first. -/
theorem cold_answers_fresh_sample :
    ∃ s : ColdCache,
      Machine.Reaches (ColdCache.Step sampleLibraries sampleLibraries.lower fun _ => idleTable)
        (System.fresh 0) s ∧
      ∃ (response : OHLCVResponse), ∃ a ∈ s.answers, a.given = 30 ∧ a.outcome = .ok response ∧
        ∃ q ∈ s.answers, (q = a ∨ a.Repeats coldTtl
            (coldHandler sampleLibraries sampleLibraries.lower) q) ∧
          ∃ c fetched, q.asked ≤ c ∧ c ≤ q.given ∧
            sampleColdRequest.Fetches sampleLibraries sampleLibraries.lower idleTable fetched ∧
            (getOhlcv sampleLibraries {} (fun _ => none) (fun _ => fetched) sampleColdRequest.1).map
              Prod.fst = .ok response := by
  obtain ⟨s, response, hreach, _, hanswers⟩ := reaches_asked_again
  have ha : ⟨sampleColdRequest, 30, .ok response, 30, false⟩ ∈ s.answers :=
    hanswers ▸ List.mem_cons_self
  obtain ⟨q, hq, hrepeats, hfresh⟩ := cold_answers_fresh sampleLibraries
    sampleLibraries.lower (fun _ => idleTable) hreach ha {}
  exact ⟨s, hreach, response, _, ha, rfl, rfl, q, hq, hrepeats, hfresh⟩

/-- **The queries that the cache saves.**  As long as the queries of a run have 500 keys at most, no
query starts within 60 seconds of the end of one with the same key that gave bars. -/
theorem cold_queries_spared (tableAt : ℚ → List MartBar) {t : ℚ} {s : ColdCache}
    (h : Machine.Reaches (ColdCache.Step lib sqlLower tableAt) (System.fresh t) s)
    {K : Finset CacheKey} (hcard : K.card ≤ coldMaxsize)
    (hkeys : ∀ x ∈ s.started, cacheKey (x.1.key lib) ∈ K) {x : ColdRequest × ℚ}
    (hx : x ∈ s.started) {a : Answer ColdRequest OHLCVResponse Failure ℚ} (ha : a ∈ s.answers)
    (hkept : a.Kept) (hkey : cacheKey (a.request.key lib) = cacheKey (x.1.key lib))
    (hafter : a.given < x.2) : a.given + coldTtl ≤ x.2 :=
  (roomy_of_reaches h hcard hkeys).spared x hx a ha hkept hkey hafter

/-- The second query, 60 seconds after the first has ended. -/
theorem cold_queries_spared_sample :
    ∃ s : ColdCache, ∃ x ∈ s.started, ∃ a ∈ s.answers, a.given < x.2 ∧ a.given + coldTtl ≤ x.2 := by
  obtain ⟨s, response, hreach, hstarted, hanswers⟩ := reaches_asked_again
  have hx : (sampleColdRequest, 61) ∈ s.started := hstarted ▸ List.mem_cons_self
  have ha : ⟨sampleColdRequest, 0, .ok response, 1, true⟩ ∈ s.answers := by simp [hanswers]
  refine ⟨s, _, hx, _, ha, by norm_num, ?_⟩
  refine cold_queries_spared sampleLibraries sampleLibraries.lower (fun _ => idleTable) hreach
    (K := {cacheKey (sampleColdRequest.key sampleLibraries)}) (by simp [coldMaxsize])
    (fun y hy => ?_) hx ha ⟨rfl, _, rfl⟩ rfl (by norm_num)
  rw [hstarted] at hy
  simp only [List.mem_cons, List.not_mem_nil, or_false] at hy
  rcases hy with rfl | rfl <;> exact Finset.mem_singleton_self _

end Ticksense
