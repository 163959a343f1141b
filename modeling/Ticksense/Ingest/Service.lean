import Mathlib.Data.List.Infix
import Ticksense.Ingest.Client
import Ticksense.Ingest.Reconnect
import Ticksense.Lib.Machine

/-!
# The ingest service

`ingest/src/ingest/main.py` and `producer.py`: one client for each configured symbol, all in one
event loop, all writing through one producer.  The clients are interleaved at every `await`, and any
session can end at any point.

* `produce` — `KafkaOrderBookProducer.produce` with both of its topics.
* `Service`, `Service.Step` — the clients, the topics, and whether the service still runs; the steps
  of one client use the same functions as a session of its own (`initializeBook`, `onFrame`).
* `Continuous` — a sequence of diffs without a gap, from an id on.
* `topics_of_client` — under any interleaving, what the topics have under a client's key is what its
  own sessions handed to the producer, session by session without a gap.
* `reaches_session` — a session run on its own is a run of the service.
* `fails_iff` — the service goes down exactly when some client has failed too often in a row; the
  others do not matter.
-/

namespace Ticksense

/-! ## The producer -/

/-- A message of the raw topic: its key, and the event that its value is the JSON text of. -/
structure RawMessage where
  key : String
  event : OrderBookEvent

/-- `DLQEvent`; the payload is the `repr` of the event, the error stands for its type and text. -/
structure DLQEvent where
  originalKey : String
  originalPayload : OrderBookEvent
  error : PyError
  ingestTs : ℤ

/-- What becomes of a `send_and_wait`: the record is there and acknowledged, or an exception is
raised, with the record on the broker or not. -/
inductive SendOutcome
  | acknowledged
  | raised (e : PyError) (appended : Bool)

/-- The record is in the topic. -/
def SendOutcome.appended : SendOutcome → Bool
  | .acknowledged => true
  | .raised _ appended => appended

/-- What a call of the producer does: what it appends to the two topics, and whether it raises. -/
structure Produced where
  raw : List RawMessage
  dlq : List DLQEvent
  raised : Option PyError

/-- The key of the raw topic. -/
def rawKey (symbol : String) : String := "binance#" ++ symbol

/-- `_send_to_dlq`; a failure of the send is logged and no more. -/
def sendToDlq (key : String) (payload : OrderBookEvent) (error : PyError) (ingestTs : ℤ)
    (send : SendOutcome) : Produced :=
  ⟨[], if send.appended then [⟨key, payload, error, ingestTs⟩] else [], none⟩

/-- `produce`, with the outcomes of the two sends. -/
def produce (modelDumpJson : OrderBookEvent → Except PyError String) (event : OrderBookEvent)
    (now : ℤ) (send sendDlq : SendOutcome) : Produced :=
  let key := rawKey event.symbol
  match modelDumpJson event with
  | .error e => sendToDlq key event e now sendDlq
  | .ok _ =>
      match send with
      | .acknowledged => ⟨[⟨key, event⟩], [], none⟩
      | .raised e appended => ⟨if appended then [⟨key, event⟩] else [], [], some e⟩

/-! ## The service -/

/-- An event handed to the producer, with what came of it. -/
structure Handed where
  event : OrderBookEvent
  produced : Produced

/-- The part of a session after the snapshot: the id of the book at its start, and the events handed
to the producer since. -/
structure LivePart where
  start : ℤ
  handed : List Handed

/-- Where a client is: connecting or waiting to, in the live loop with its book, or at its end. -/
inductive Phase
  | connecting
  | live (book : OrderBook) (part : LivePart)
  | gaveUp

/-- A client.  `past`, `outcomes` and the parts are its history, which the code does not keep. -/
structure ClientState where
  retries : ℕ
  phase : Phase
  past : List LivePart
  outcomes : List SessionOutcome

/-- All clients run; one has raised, and the producer is being stopped; it is over.  The reason is the
exception that left `gather`, or none for a cancellation. -/
inductive Status
  | running
  | closing (e : PyError)
  | ended (reason : Option PyError)

/-- The service, with a client for each position of `ingest_symbols`. -/
structure Service (κ : Type) where
  clients : κ → ClientState
  raw : List RawMessage
  dlq : List DLQEvent
  status : Status

/-- The part that is on. -/
def Phase.part : Phase → List LivePart
  | .live _ part => [part]
  | _ => []

/-- The live parts of all sessions of a client, the last one possibly going on. -/
def ClientState.parts (c : ClientState) : List LivePart := c.past ++ c.phase.part

/-- Behind the session: the rest of the loop of `run`, and the exception that leaves it. -/
def ClientState.endSession (c : ClientState) (raised : Option PyError) :
    ClientState × Option PyError :=
  let outcome : SessionOutcome := ⟨(c.phase.part.flatMap LivePart.handed).length, raised⟩
  match reaction c.retries outcome with
  | (retries, .reraise e) => (⟨retries, .gaveUp, c.parts, c.outcomes ++ [outcome]⟩, some e)
  | (retries, _) => (⟨retries, .connecting, c.parts, c.outcomes ++ [outcome]⟩, none)

/-- The first exception that leaves a client's `run` leaves `gather`. -/
def Status.leave (status : Status) : Option PyError → Status
  | none => status
  | some e =>
      match status with
      | .running => .closing e
      | status => status

/-- Tasks still run: `gather` does not cancel the others when one raises. -/
def Status.Open : Status → Prop
  | .ended _ => False
  | _ => True

/-- One more event of the session that is on is handed over. -/
def ClientState.hand (c : ClientState) (book : OrderBook) (part : LivePart) (h : Handed) :
    ClientState :=
  { c with phase := .live book ⟨part.start, part.handed ++ [h]⟩ }

section Steps

variable {κ : Type} [DecidableEq κ]

def Service.start : Service κ := ⟨fun _ => ⟨0, .connecting, [], []⟩, [], [], .running⟩

def Service.set (σ : Service κ) (i : κ) (c : ClientState) : Service κ :=
  { σ with clients := Function.update σ.clients i c }

/-- The session of a client is over. -/
def Service.endSession (σ : Service κ) (i : κ) (raised : Option PyError) : Service κ :=
  let (c, reraised) := (σ.clients i).endSession raised
  { σ.set i c with status := σ.status.leave reraised }

/-- An event is handed to the producer: the client goes on with its book, or its session ends. -/
def Service.hand (σ : Service κ) (i : κ) (book : OrderBook) (part : LivePart) (h : Handed) :
    Service κ :=
  let c := (σ.clients i).hand book part h
  let σ := { σ.set i c with raw := σ.raw ++ h.produced.raw, dlq := σ.dlq ++ h.produced.dlq }
  match h.produced.raised with
  | none => σ
  | some e => σ.endSession i (some e)

/-- One step of the service: one client comes from one `await` to the next, or all are stopped. -/
inductive Service.Step (modelDumpJson : OrderBookEvent → Except PyError String)
    (symbol : κ → String) : Service κ → Service κ → Prop
  /-- the snapshot is there and the buffer replayed -/
  | initialized {σ : Service κ} {i : κ} {session : Session} {book : OrderBook}
      {effects : List Effect} (hopen : σ.status.Open) (hphase : (σ.clients i).phase = .connecting)
      (hsymbol : session.symbol = symbol i)
      (hbook : initializeBook session (OrderBook.new session.symbol) = .ok (book, effects)) :
      Step modelDumpJson symbol σ
        (σ.set i { σ.clients i with phase := .live book ⟨book.lastUpdateId, []⟩ })
  /-- a frame without an event -/
  | ignored {σ : Service κ} {i : κ} {book book' : OrderBook} {part : LivePart} {f : Frame}
      {effects : List Effect} (hopen : σ.status.Open)
      (hphase : (σ.clients i).phase = .live book part)
      (hframe : onFrame (symbol i) book f = .ok (book', effects))
      (hnone : publishedOf effects = []) :
      Step modelDumpJson symbol σ (σ.set i { σ.clients i with phase := .live book' part })
  /-- a frame with an event -/
  | produced {σ : Service κ} {i : κ} {book book' : OrderBook} {part : LivePart} {f : Frame}
      {effects : List Effect} {event : OrderBookEvent} (now : ℤ) (send sendDlq : SendOutcome)
      (hopen : σ.status.Open) (hphase : (σ.clients i).phase = .live book part)
      (hframe : onFrame (symbol i) book f = .ok (book', effects))
      (hevent : publishedOf effects = [event]) :
      Step modelDumpJson symbol σ
        (σ.hand i book' part ⟨event, produce modelDumpJson event now send sendDlq⟩)
  /-- an exception: no connection, no snapshot, a gap, a frame that cannot be read -/
  | failed {σ : Service κ} {i : κ} (e : PyError) (hopen : σ.status.Open)
      (hphase : (σ.clients i).phase ≠ .gaveUp) :
      Step modelDumpJson symbol σ (σ.endSession i (some e))
  /-- the connection is closed and the live loop ends -/
  | closed {σ : Service κ} {i : κ} {book : OrderBook} {part : LivePart} (hopen : σ.status.Open)
      (hphase : (σ.clients i).phase = .live book part) :
      Step modelDumpJson symbol σ (σ.endSession i none)
  /-- the service is cancelled, and with it the clients -/
  | cancelled {σ : Service κ} (hrunning : σ.status = .running) :
      Step modelDumpJson symbol σ { σ with status := .ended none }
  /-- the producer is stopped, and the loop closed -/
  | stopped {σ : Service κ} {e : PyError} (hclosing : σ.status = .closing e) :
      Step modelDumpJson symbol σ { σ with status := .ended (some e) }

end Steps

/-! ## Streams without a gap -/

/-- How far a stream of diffs has come from an id on. -/
def upTo (last : ℤ) (events : List OrderBookEvent) : ℤ :=
  events.foldl (fun last e => max last e.lastUpdateId) last

/-- No diff leaves ids out: each one is stale, or starts at the latest behind what has come so far.
-/
def Continuous : ℤ → List OrderBookEvent → Prop
  | _, [] => True
  | last, e :: events =>
      (e.lastUpdateId ≤ last ∨ e.firstUpdateId ≤ last + 1) ∧
        Continuous (max last e.lastUpdateId) events

lemma continuous_append_singleton {last : ℤ} {events : List OrderBookEvent} {e : OrderBookEvent} :
    Continuous last (events ++ [e]) ↔ Continuous last events ∧
      (e.lastUpdateId ≤ upTo last events ∨ e.firstUpdateId ≤ upTo last events + 1) := by
  induction events generalizing last with
  | nil => simp [Continuous, upTo]
  | cons d events ih =>
      rw [List.cons_append, Continuous, Continuous, ih, and_assoc]
      rfl

lemma upTo_append_singleton (last : ℤ) (events : List OrderBookEvent) (e : OrderBookEvent) :
    upTo last (events ++ [e]) = max (upTo last events) e.lastUpdateId := by
  rw [upTo, List.foldl_append]
  rfl

/-- What the live loop does with a frame: nothing, or it takes the next diff or a stale one. -/
lemma onFrame_ok {symbol : String} {book book' : OrderBook} {f : Frame} {effects : List Effect}
    (h : onFrame symbol book f = .ok (book', effects)) :
    (f.arrival = none ∧ publishedOf effects = [] ∧ book' = book) ∨
      ∃ event, publishedOf effects = [event] ∧
        (event.exchange = "binance" ∧ event.symbol = symbol) ∧
        (event.lastUpdateId ≤ book.lastUpdateId ∨ event.firstUpdateId ≤ book.lastUpdateId + 1) ∧
        book'.lastUpdateId = max book.lastUpdateId event.lastUpdateId := by
  obtain ⟨parsed, hparsed, h⟩ := bind_eq_ok.mp h
  cases parsed with
  | none =>
      cases h
      exact Or.inl ⟨parseEvent_ok hparsed, rfl, rfl⟩
  | some event =>
      cases happly : book.apply event with
      | error e => simp [happly] at h
      | ok next =>
          simp only [happly] at h
          obtain ⟨out, hout, h⟩ := bind_eq_ok.mp h
          cases h
          have hrep := toOrderbookEvent_ok (a := ⟨f.seq, event⟩) hout
          refine Or.inr ⟨out, ?_, ⟨hrep.exchange, hrep.symbol⟩, ?_, ?_⟩
          · rw [publishedOf_append, publishedOf_map_applied]
            rfl
          · rw [hrep.lastUpdateId, hrep.firstUpdateId]
            rcases OrderBook.apply_ok happly with ⟨hstale, _⟩ | ⟨htakes, _⟩
            · exact Or.inl hstale
            · exact Or.inr htakes.2
          · rw [hrep.lastUpdateId]
            rcases OrderBook.apply_ok happly with ⟨hstale, rfl⟩ | ⟨htakes, hdiff⟩
            · exact (max_eq_left hstale).symm
            · rw [OrderBook.applyDiff_lastUpdateId hdiff, max_eq_right (le_of_lt htakes.1)]

/-! ## The history of a client -/

/-- The events handed over in all sessions. -/
def ClientState.handed (c : ClientState) : List Handed := c.parts.flatMap LivePart.handed

/-- What was handed over is an event of the client's symbol, with what `produce` made of it. -/
def Handed.Made (modelDumpJson : OrderBookEvent → Except PyError String) (symbol : String)
    (h : Handed) : Prop :=
  (h.event.exchange = "binance" ∧ h.event.symbol = symbol) ∧
    ∃ now send sendDlq, h.produced = produce modelDumpJson h.event now send sendDlq

/-- **What holds of the past of a client**: its sessions are without gaps, only the last call of the
producer in a session can have raised, and the retries count the failures in a row. -/
structure ClientState.Recorded (modelDumpJson : OrderBookEvent → Except PyError String)
    (symbol : String) (c : ClientState) : Prop where
  continuous : ∀ part ∈ c.parts, Continuous part.start (part.handed.map Handed.event)
  calm : ∀ part ∈ c.parts, ∀ h ∈ part.handed.dropLast, h.produced.raised = none
  made : ∀ h ∈ c.handed, h.Made modelDumpJson symbol
  counts : c.phase ≠ .gaveUp → retriesAfter c.outcomes = some c.retries
  exhausted : c.phase = .gaveUp → ¬ Bearable c.outcomes

/-- And of the session that is on: its book is where the stream is, and no call has raised. -/
structure ClientState.Sound (modelDumpJson : OrderBookEvent → Except PyError String)
    (symbol : String) (c : ClientState) : Prop
    extends ClientState.Recorded modelDumpJson symbol c where
  book : ∀ book part, c.phase = .live book part →
    book.lastUpdateId = upTo part.start (part.handed.map Handed.event)
  calmNow : ∀ part ∈ c.phase.part, ∀ h ∈ part.handed, h.produced.raised = none

section Client

variable {modelDumpJson : OrderBookEvent → Except PyError String} {symbol : String}
  {c : ClientState}

/-- What the end of a session leaves as it was, and what becomes of the client. -/
lemma endSession_spec (c : ClientState) (raised : Option PyError) :
    (c.endSession raised).1.parts = c.parts ∧ (c.endSession raised).1.phase.part = [] ∧
      (∃ n, (c.endSession raised).1.outcomes = c.outcomes ++ [⟨n, raised⟩] ∧
        (c.endSession raised).1.retries = (reaction c.retries ⟨n, raised⟩).1) ∧
      (((c.endSession raised).1.phase = .connecting ∧ (c.endSession raised).2 = none ∧
          ∀ n e, (reaction c.retries ⟨n, raised⟩).2 ≠ .reraise e) ∨
        ((c.endSession raised).1.phase = .gaveUp ∧ ∃ e, (c.endSession raised).2 = some e ∧
          ∀ n, (reaction c.retries ⟨n, raised⟩).2 = .reraise e)) := by
  cases raised with
  | none =>
      simp [ClientState.endSession, reaction, ClientState.parts, Phase.part]
  | some e =>
      by_cases hmany : c.retries + 1 > maxRetries
      · simp [ClientState.endSession, reaction, hmany, ClientState.parts, Phase.part]
      · simp [ClientState.endSession, reaction, hmany, ClientState.parts, Phase.part]

/-- The loop after one more session that it survives, or does not. -/
lemma retriesAfter_concat {before : List SessionOutcome} {retries : ℕ}
    (h : retriesAfter before = some retries) (outcome : SessionOutcome) :
    ((∀ e, (reaction retries outcome).2 ≠ .reraise e) →
        retriesAfter (before ++ [outcome]) = some (reaction retries outcome).1) ∧
      ∀ e, (reaction retries outcome).2 = .reraise e →
        retriesAfter (before ++ [outcome]) = none := by
  rw [retriesAfter, List.foldlM_append, ← retriesAfter, h]
  simp only [Option.bind_eq_bind, Option.bind_some, List.foldlM_cons, List.foldlM_nil]
  rcases reaction retries outcome with ⟨retries', r⟩
  cases r with
  | reconnect => simp
  | sleep seconds => simp
  | reraise e => simp

/-- **The end of a session** keeps the history. -/
lemma ClientState.Recorded.endSession (h : c.Recorded modelDumpJson symbol)
    (hphase : c.phase ≠ .gaveUp) (raised : Option PyError) :
    (c.endSession raised).1.Sound modelDumpJson symbol := by
  obtain ⟨hparts, hnow, ⟨n, houtcomes, hretries⟩, hphases⟩ := endSession_spec c raised
  have hcount := h.counts hphase
  refine ⟨⟨?_, ?_, ?_, ?_, ?_⟩, ?_, ?_⟩
  · rw [hparts]
    exact h.continuous
  · rw [hparts]
    exact h.calm
  · rw [ClientState.handed, hparts]
    exact h.made
  · intro hgoes
    rcases hphases with ⟨_, _, hstay⟩ | ⟨hgone, _⟩
    · rw [houtcomes, hretries]
      exact (retriesAfter_concat hcount _).1 (hstay n)
    · exact absurd hgone hgoes
  · intro hgone
    rcases hphases with ⟨hstay, _⟩ | ⟨_, e, _, hreraise⟩
    · rw [hstay] at hgone
      cases hgone
    · intro hbearable
      have hsome := retriesAfter_eq_some.mpr ⟨hbearable, rfl⟩
      rw [houtcomes, (retriesAfter_concat hcount _).2 e (hreraise n)] at hsome
      cases hsome
  · intro book part hlive
    rw [hlive] at hnow
    cases hnow
  · intro part hpart
    rw [hnow] at hpart
    cases hpart

lemma mem_parts_live {book : OrderBook} {part p : LivePart} (hphase : c.phase = .live book part) :
    p ∈ c.parts ↔ p ∈ c.past ∨ p = part := by
  rw [ClientState.parts, hphase, List.mem_append, Phase.part, List.mem_singleton]

/-- **An event is handed over** that continues the stream where the book is. -/
lemma ClientState.Sound.hand (h : c.Sound modelDumpJson symbol) {book book' : OrderBook}
    {part : LivePart} (hphase : c.phase = .live book part) {handed : Handed}
    (hmade : handed.Made modelDumpJson symbol)
    (hnext : handed.event.lastUpdateId ≤ book.lastUpdateId ∨
      handed.event.firstUpdateId ≤ book.lastUpdateId + 1)
    (hbook : book'.lastUpdateId = max book.lastUpdateId handed.event.lastUpdateId) :
    (c.hand book' part handed).Recorded modelDumpJson symbol ∧
      (handed.produced.raised = none → (c.hand book' part handed).Sound modelDumpJson symbol) := by
  have hat := h.book book part hphase
  have hcalm := h.calmNow part (by rw [hphase]; exact List.mem_singleton.mpr rfl)
  have hpart : part ∈ c.parts := (mem_parts_live hphase).mpr (Or.inr rfl)
  have hpast : ∀ p ∈ c.past, p ∈ c.parts := fun p hp => (mem_parts_live hphase).mpr (Or.inl hp)
  have hrecorded : (c.hand book' part handed).Recorded modelDumpJson symbol := by
    refine ⟨?_, ?_, ?_, ?_, ?_⟩
    · intro p hp
      rcases (mem_parts_live rfl).mp hp with hp | rfl
      · exact h.continuous p (hpast p hp)
      · rw [List.map_append]
        refine continuous_append_singleton.mpr ⟨h.continuous part hpart, ?_⟩
        rw [← hat]
        exact hnext
    · intro p hp
      rcases (mem_parts_live rfl).mp hp with hp | rfl
      · exact h.calm p (hpast p hp)
      · rw [List.dropLast_concat]
        exact hcalm
    · intro g hg
      obtain ⟨p, hp, hg⟩ := List.mem_flatMap.mp hg
      rcases (mem_parts_live rfl).mp hp with hp | rfl
      · exact h.made g (List.mem_flatMap.mpr ⟨p, hpast p hp, hg⟩)
      · rcases List.mem_append.mp hg with hg | hg
        · exact h.made g (List.mem_flatMap.mpr ⟨part, hpart, hg⟩)
        · rw [List.mem_singleton.mp hg]
          exact hmade
    · intro _
      refine h.counts ?_
      rw [hphase]
      exact Phase.noConfusion
    · intro hgone
      cases hgone
  refine ⟨hrecorded, fun hnone => ⟨hrecorded, ?_, ?_⟩⟩
  · intro b p hp
    cases hp
    rw [List.map_append, List.map_singleton, upTo_append_singleton, ← hat]
    exact hbook
  · intro p hp g hg
    rw [List.mem_singleton.mp hp] at hg
    rcases List.mem_append.mp hg with hg | hg
    · exact hcalm g hg
    · rw [List.mem_singleton.mp hg]
      exact hnone

end Client

/-! ## The whole service -/

section Whole

variable {κ : Type} [DecidableEq κ] {modelDumpJson : OrderBookEvent → Except PyError String}
  {symbol : κ → String}

/-- An exception has left `gather`. -/
def Status.Failed : Status → Prop
  | .closing _ => True
  | .ended (some _) => True
  | _ => False

/-- **What holds of the service**: its clients are sound, and it has failed if one of them has. -/
structure Service.Sound (modelDumpJson : OrderBookEvent → Except PyError String)
    (symbol : κ → String) (σ : Service κ) : Prop where
  clients : ∀ i, (σ.clients i).Sound modelDumpJson (symbol i)
  failed : σ.status.Failed ↔ ∃ i, (σ.clients i).phase = .gaveUp

/-- The topics have under the key of each client what the client has handed over, and the keys of
the raw topic are those of the events. -/
structure Service.Filed (symbol : κ → String) (σ : Service κ) : Prop where
  raw : ∀ i, (σ.raw.filter fun m => m.key = rawKey (symbol i))
    = (σ.clients i).handed.flatMap fun h => h.produced.raw
  dlq : ∀ i, (σ.dlq.filter fun m => m.originalKey = rawKey (symbol i))
    = (σ.clients i).handed.flatMap fun h => h.produced.dlq
  keyed : ∀ m ∈ σ.raw, m.key = m.event.exchange ++ "#" ++ m.event.symbol

lemma rawKey_injective : Function.Injective rawKey := by
  intro a b h
  exact (String.append_right_inj _).mp h

/-- What is produced goes under the key of the event's symbol. -/
lemma produce_keys (modelDumpJson : OrderBookEvent → Except PyError String)
    (event : OrderBookEvent) (now : ℤ) (send sendDlq : SendOutcome) :
    (∀ m ∈ (produce modelDumpJson event now send sendDlq).raw,
        m = ⟨rawKey event.symbol, event⟩) ∧
      ∀ m ∈ (produce modelDumpJson event now send sendDlq).dlq,
        m.originalKey = rawKey event.symbol := by
  unfold produce
  cases modelDumpJson event with
  | error e =>
      refine ⟨by simp [sendToDlq], fun m hm => ?_⟩
      simp only [sendToDlq] at hm
      split_ifs at hm
      · rw [List.mem_singleton.mp hm]
      · cases hm
  | ok value => cases send <;> simp

/-- What is appended under one key shows under that key only. -/
lemma filter_key_append {α : Type} (key : α → String) {old new : List α} {k k' : String}
    (hnew : ∀ m ∈ new, key m = k) :
    ((old ++ new).filter fun m => key m = k')
      = (old.filter fun m => key m = k') ++ if k = k' then new else [] := by
  rw [List.filter_append]
  congr 1
  split_ifs with hk
  · exact List.filter_eq_self.mpr fun m hm => decide_eq_true ((hnew m hm).trans hk)
  · exact List.filter_eq_nil_iff.mpr fun m hm => by simpa [hnew m hm] using hk

section Changes

variable {σ : Service κ} {i : κ}

lemma clients_endSession_self (raised : Option PyError) :
    (σ.endSession i raised).clients i = ((σ.clients i).endSession raised).1 :=
  Function.update_self _ _ _

lemma clients_endSession_other {j : κ} (hj : j ≠ i) (raised : Option PyError) :
    (σ.endSession i raised).clients j = σ.clients j :=
  Function.update_of_ne hj _ _

lemma handed_endSession (j : κ) (raised : Option PyError) :
    ((σ.endSession i raised).clients j).handed = (σ.clients j).handed := by
  by_cases hj : j = i
  · subst hj
    rw [clients_endSession_self, ClientState.handed, (endSession_spec _ raised).1,
      ClientState.handed]
  · rw [clients_endSession_other hj]

/-- A client gets into another state, without having given up. -/
lemma Service.Sound.set (h : σ.Sound modelDumpJson symbol) {c : ClientState}
    (hc : c.Sound modelDumpJson (symbol i)) (hgone : c.phase ≠ .gaveUp)
    (hbefore : (σ.clients i).phase ≠ .gaveUp) : (σ.set i c).Sound modelDumpJson symbol := by
  refine ⟨fun j => ?_, h.failed.trans (exists_congr fun j => ?_)⟩
  · by_cases hj : j = i
    · subst hj
      simpa [Service.set] using hc
    · simpa [Service.set, Function.update_of_ne hj] using h.clients j
  · by_cases hj : j = i
    · subst hj
      simp [Service.set, hgone, hbefore]
    · simp [Service.set, Function.update_of_ne hj]

lemma Status.failed_leave {status : Status} (h : status.Open) (e : PyError) :
    (status.leave (some e)).Failed := by
  cases status with
  | running => trivial
  | closing e => trivial
  | ended reason => exact h.elim

/-- A session ends, of a client with a history worth keeping, while the others are sound. -/
lemma Service.sound_endSession (hopen : σ.status.Open) (hphase : (σ.clients i).phase ≠ .gaveUp)
    (hclient : (σ.clients i).Recorded modelDumpJson (symbol i))
    (hothers : ∀ j, j ≠ i → (σ.clients j).Sound modelDumpJson (symbol j))
    (hfailed : σ.status.Failed ↔ ∃ j, (σ.clients j).phase = .gaveUp) (raised : Option PyError) :
    (σ.endSession i raised).Sound modelDumpJson symbol := by
  refine ⟨fun j => ?_, ?_⟩
  · by_cases hj : j = i
    · subst hj
      rw [clients_endSession_self]
      exact hclient.endSession hphase raised
    · rw [clients_endSession_other hj]
      exact hothers j hj
  · have hstatus : (σ.endSession i raised).status
        = σ.status.leave ((σ.clients i).endSession raised).2 := rfl
    obtain ⟨_, _, _, hphases⟩ := endSession_spec (σ.clients i) raised
    rw [hstatus]
    rcases hphases with ⟨hstay, hnone, _⟩ | ⟨hgone, e, hsome, _⟩
    · rw [hnone, Status.leave, hfailed]
      refine exists_congr fun j => ?_
      by_cases hj : j = i
      · subst hj
        rw [clients_endSession_self, hstay]
        simp [hphase]
      · rw [clients_endSession_other hj]
    · rw [hsome]
      exact iff_of_true (Status.failed_leave hopen e)
        ⟨i, (congrArg ClientState.phase (clients_endSession_self raised)).trans hgone⟩

/-- The service behind an event that is handed over, before the exception if there was one. -/
def Service.handedOver (σ : Service κ) (i : κ) (book : OrderBook) (part : LivePart) (h : Handed) :
    Service κ :=
  { σ.set i ((σ.clients i).hand book part h) with
    raw := σ.raw ++ h.produced.raw
    dlq := σ.dlq ++ h.produced.dlq }

lemma hand_eq (book : OrderBook) (part : LivePart) (h : Handed) :
    (h.produced.raised = none ∧ σ.hand i book part h = σ.handedOver i book part h) ∨
      ∃ e, σ.hand i book part h = (σ.handedOver i book part h).endSession i (some e) := by
  cases hraised : h.produced.raised with
  | none => exact Or.inl ⟨rfl, by simp only [Service.hand, hraised, Service.handedOver]⟩
  | some e => exact Or.inr ⟨e, by simp only [Service.hand, hraised, Service.handedOver]⟩

lemma clients_handedOver_self (book : OrderBook) (part : LivePart) (h : Handed) :
    (σ.handedOver i book part h).clients i = (σ.clients i).hand book part h :=
  Function.update_self _ _ _

lemma clients_handedOver_other {j : κ} (hj : j ≠ i) (book : OrderBook) (part : LivePart)
    (h : Handed) : (σ.handedOver i book part h).clients j = σ.clients j :=
  Function.update_of_ne hj _ _

/-- A client hands over an event that continues its stream. -/
lemma Service.Sound.hand (h : σ.Sound modelDumpJson symbol) {book book' : OrderBook}
    {part : LivePart} (hopen : σ.status.Open) (hphase : (σ.clients i).phase = .live book part)
    {handed : Handed} (hmade : handed.Made modelDumpJson (symbol i))
    (hnext : handed.event.lastUpdateId ≤ book.lastUpdateId ∨
      handed.event.firstUpdateId ≤ book.lastUpdateId + 1)
    (hbook : book'.lastUpdateId = max book.lastUpdateId handed.event.lastUpdateId) :
    (σ.hand i book' part handed).Sound modelDumpJson symbol := by
  obtain ⟨hrecorded, hsound⟩ := (h.clients i).hand hphase hmade hnext hbook
  have hself := clients_handedOver_self (σ := σ) (i := i) book' part handed
  have hgone : ((σ.handedOver i book' part handed).clients i).phase ≠ .gaveUp := by
    rw [hself]
    exact Phase.noConfusion
  have hothers : ∀ j, j ≠ i →
      ((σ.handedOver i book' part handed).clients j).Sound modelDumpJson (symbol j) := by
    intro j hj
    rw [clients_handedOver_other hj]
    exact h.clients j
  have hfailed : (σ.handedOver i book' part handed).status.Failed ↔
      ∃ j, ((σ.handedOver i book' part handed).clients j).phase = .gaveUp := by
    refine h.failed.trans (exists_congr fun j => ?_)
    by_cases hj : j = i
    · subst hj
      simp [hphase, hgone]
    · rw [clients_handedOver_other hj]
  rcases hand_eq (σ := σ) (i := i) book' part handed with ⟨hnone, heq⟩ | ⟨e, heq⟩
  · rw [heq]
    refine ⟨fun j => ?_, hfailed⟩
    by_cases hj : j = i
    · subst hj
      rw [hself]
      exact hsound hnone
    · exact hothers j hj
  · rw [heq]
    exact Service.sound_endSession (σ := σ.handedOver i book' part handed) hopen hgone
      (by rwa [hself]) hothers hfailed _

omit [DecidableEq κ] in
/-- Where no client hands anything over, the topics stay filed. -/
lemma Service.Filed.of_handed (h : σ.Filed symbol) {σ' : Service κ} (hraw : σ'.raw = σ.raw)
    (hdlq : σ'.dlq = σ.dlq) (hhanded : ∀ j, (σ'.clients j).handed = (σ.clients j).handed) :
    σ'.Filed symbol := by
  refine ⟨fun j => ?_, fun j => ?_, ?_⟩
  · rw [hraw, hhanded]
    exact h.raw j
  · rw [hdlq, hhanded]
    exact h.dlq j
  · rw [hraw]
    exact h.keyed

lemma handed_set {c : ClientState} (h : c.handed = (σ.clients i).handed) (j : κ) :
    ((σ.set i c).clients j).handed = (σ.clients j).handed := by
  by_cases hj : j = i
  · subst hj
    simpa [Service.set] using h
  · simp [Service.set, Function.update_of_ne hj]

/-- **The messages of different symbols do not mix.** -/
lemma Service.Filed.hand (h : σ.Filed symbol) (hinjective : Function.Injective symbol)
    {book book' : OrderBook} {part : LivePart} (hphase : (σ.clients i).phase = .live book part)
    {handed : Handed} (hmade : handed.Made modelDumpJson (symbol i)) :
    (σ.hand i book' part handed).Filed symbol := by
  obtain ⟨⟨hexchange, hsymbol⟩, now, send, sendDlq, hproduced⟩ := hmade
  have hkeys := produce_keys modelDumpJson handed.event now send sendDlq
  rw [← hproduced, hsymbol] at hkeys
  obtain ⟨hrawKey, hdlqKey⟩ := hkeys
  have hhanded : ((σ.clients i).hand book' part handed).handed
      = (σ.clients i).handed ++ [handed] := by
    simp [ClientState.handed, ClientState.parts, ClientState.hand, hphase, Phase.part]
  have hkey : ∀ j, j ≠ i → rawKey (symbol i) ≠ rawKey (symbol j) :=
    fun j hj heq => hj (hinjective (rawKey_injective heq)).symm
  have hover : (σ.handedOver i book' part handed).Filed symbol := by
    refine ⟨fun j => ?_, fun j => ?_, fun m hm => ?_⟩
    · show (σ.raw ++ handed.produced.raw).filter _ = _
      rw [filter_key_append RawMessage.key fun m hm => by rw [hrawKey m hm], h.raw j]
      by_cases hj : j = i
      · subst hj
        simp [clients_handedOver_self, hhanded]
      · simp [clients_handedOver_other hj, hkey j hj]
    · show (σ.dlq ++ handed.produced.dlq).filter _ = _
      rw [filter_key_append DLQEvent.originalKey hdlqKey, h.dlq j]
      by_cases hj : j = i
      · subst hj
        simp [clients_handedOver_self, hhanded]
      · simp [clients_handedOver_other hj, hkey j hj]
    · rcases List.mem_append.mp hm with hm | hm
      · exact h.keyed m hm
      · rw [hrawKey m hm, hexchange, hsymbol]
        rfl
  rcases hand_eq (σ := σ) (i := i) book' part handed with ⟨_, heq⟩ | ⟨e, heq⟩
  · rwa [heq]
  · rw [heq]
    exact hover.of_handed rfl rfl fun j => handed_endSession j _

end Changes

/-! ## Runs -/

/-- The live loop begins with nothing handed over. -/
lemma ClientState.Sound.begin {c : ClientState} {s : String} (h : c.Sound modelDumpJson s)
    (hphase : c.phase = .connecting) (book : OrderBook) :
    ({ c with phase := .live book ⟨book.lastUpdateId, []⟩ } : ClientState).Sound modelDumpJson s ∧
      ({ c with phase := .live book ⟨book.lastUpdateId, []⟩ } : ClientState).handed
        = c.handed := by
  have hparts : ∀ p : LivePart, p ∈ c.past ++ [⟨book.lastUpdateId, []⟩] →
      p ∈ c.parts ∨ p = ⟨book.lastUpdateId, []⟩ := by
    intro p hp
    rcases List.mem_append.mp hp with hp | hp
    · exact Or.inl (List.mem_append_left _ hp)
    · exact Or.inr (List.mem_singleton.mp hp)
  have hhanded : ({ c with phase := .live book ⟨book.lastUpdateId, []⟩ } : ClientState).handed
      = c.handed := by
    simp [ClientState.handed, ClientState.parts, Phase.part, hphase]
  refine ⟨⟨⟨?_, ?_, ?_, ?_, ?_⟩, ?_, ?_⟩, hhanded⟩
  · intro p hp
    rcases hparts p hp with hp | rfl
    · exact h.continuous p hp
    · trivial
  · intro p hp
    rcases hparts p hp with hp | rfl
    · exact h.calm p hp
    · simp
  · rw [hhanded]
    exact h.made
  · intro _
    refine h.counts ?_
    rw [hphase]
    exact Phase.noConfusion
  · intro hgone
    cases hgone
  · intro b p hp
    cases hp
    rfl
  · intro p hp
    rw [List.mem_singleton.mp hp]
    simp

lemma live_ne_gaveUp {c : ClientState} {book : OrderBook} {part : LivePart}
    (h : c.phase = .live book part) : c.phase ≠ .gaveUp := by
  rw [h]
  exact Phase.noConfusion

/-- A frame without an event changes nothing. -/
lemma ignored_eq {c : ClientState} {s : String} {book book' : OrderBook} {part : LivePart}
    {f : Frame} {effects : List Effect} (hphase : c.phase = .live book part)
    (hframe : onFrame s book f = .ok (book', effects)) (hnone : publishedOf effects = []) :
    ({ c with phase := .live book' part } : ClientState) = c := by
  rcases onFrame_ok hframe with ⟨_, _, rfl⟩ | ⟨event, hevent, _⟩
  · rw [← hphase]
  · rw [hnone] at hevent
    cases hevent

/-- What a frame with an event gives to the producer. -/
lemma made_of_frame {s : String} {book book' : OrderBook} {f : Frame} {effects : List Effect}
    {event : OrderBookEvent} (hframe : onFrame s book f = .ok (book', effects))
    (hevent : publishedOf effects = [event]) :
    (event.exchange = "binance" ∧ event.symbol = s) ∧
      (event.lastUpdateId ≤ book.lastUpdateId ∨ event.firstUpdateId ≤ book.lastUpdateId + 1) ∧
      book'.lastUpdateId = max book.lastUpdateId event.lastUpdateId := by
  rcases onFrame_ok hframe with ⟨_, hnone, _⟩ | ⟨event', hevent', hspec⟩
  · rw [hnone] at hevent
    cases hevent
  · rw [hevent, List.cons.injEq] at hevent'
    rwa [hevent'.1]

omit [DecidableEq κ] in
lemma Service.sound_start : (Service.start : Service κ).Sound modelDumpJson symbol where
  clients := by
    intro i
    refine ⟨⟨?_, ?_, ?_, fun _ => rfl, fun h => by cases h⟩, ?_, ?_⟩ <;>
      simp [Service.start, ClientState.parts, ClientState.handed, Phase.part]
  failed := by simp [Service.start, Status.Failed]

/-- **One step of the service.** -/
lemma Service.sound_step {σ σ' : Service κ} (h : σ.Sound modelDumpJson symbol)
    (hstep : Service.Step modelDumpJson symbol σ σ') : σ'.Sound modelDumpJson symbol := by
  cases hstep with
  | @initialized i session book effects hopen hphase hsymbol hbook =>
      refine h.set ((h.clients i).begin hphase book).1 Phase.noConfusion ?_
      rw [hphase]
      exact Phase.noConfusion
  | @ignored i book book' part f effects hopen hphase hframe hnone =>
      rw [ignored_eq hphase hframe hnone]
      exact h.set (h.clients i) (live_ne_gaveUp hphase) (live_ne_gaveUp hphase)
  | @produced i book book' part f effects event now send sendDlq hopen hphase hframe hevent =>
      obtain ⟨hsymbol, hnext, hbook⟩ := made_of_frame hframe hevent
      exact h.hand hopen hphase ⟨hsymbol, now, send, sendDlq, rfl⟩ hnext hbook
  | @failed i e hopen hphase =>
      exact Service.sound_endSession hopen hphase (h.clients i).toRecorded
        (fun j _ => h.clients j) h.failed _
  | @closed i book part hopen hphase =>
      exact Service.sound_endSession hopen (live_ne_gaveUp hphase) (h.clients i).toRecorded
        (fun j _ => h.clients j) h.failed _
  | cancelled hrunning =>
      refine ⟨h.clients, ?_⟩
      rw [← h.failed, hrunning]
      exact Iff.rfl
  | stopped hclosing =>
      refine ⟨h.clients, ?_⟩
      rw [← h.failed, hclosing]
      exact Iff.rfl

/-- **Any run of the service.** -/
theorem Service.sound_of_reaches {σ : Service κ}
    (h : Machine.Reaches (Service.Step modelDumpJson symbol) Service.start σ) :
    σ.Sound modelDumpJson symbol :=
  Machine.invariant (P := Service.Sound modelDumpJson symbol)
    (fun _ _ hσ hstep => Service.sound_step hσ hstep) Service.sound_start h

lemma Service.filed_step (hinjective : Function.Injective symbol) {σ σ' : Service κ}
    (hsound : σ.Sound modelDumpJson symbol) (h : σ.Filed symbol)
    (hstep : Service.Step modelDumpJson symbol σ σ') : σ'.Filed symbol := by
  cases hstep with
  | @initialized i session book effects hopen hphase hsymbol hbook =>
      exact h.of_handed rfl rfl (handed_set ((hsound.clients i).begin hphase book).2)
  | @ignored i book book' part f effects hopen hphase hframe hnone =>
      rw [ignored_eq hphase hframe hnone]
      exact h.of_handed rfl rfl (handed_set rfl)
  | @produced i book book' part f effects event now send sendDlq hopen hphase hframe hevent =>
      exact h.hand hinjective hphase
        ⟨(made_of_frame hframe hevent).1, now, send, sendDlq, rfl⟩
  | failed e hopen hphase => exact h.of_handed rfl rfl fun j => handed_endSession j _
  | closed hopen hphase => exact h.of_handed rfl rfl fun j => handed_endSession j _
  | cancelled hrunning => exact h.of_handed rfl rfl fun _ => rfl
  | stopped hclosing => exact h.of_handed rfl rfl fun _ => rfl

theorem Service.filed_of_reaches (hinjective : Function.Injective symbol) {σ : Service κ}
    (h : Machine.Reaches (Service.Step modelDumpJson symbol) Service.start σ) :
    σ.Filed symbol := by
  refine (Machine.invariant (P := fun σ => σ.Sound modelDumpJson symbol ∧ σ.Filed symbol)
    (fun _ _ hσ hstep => ⟨Service.sound_step hσ.1 hstep,
      Service.filed_step hinjective hσ.1 hσ.2 hstep⟩) ⟨Service.sound_start, ?_⟩ h).2
  constructor <;> simp [Service.start, ClientState.handed, ClientState.parts, Phase.part]

/-- **The topics under a client's key.**  The clients have different symbols; their steps are
interleaved in any way, and connections, snapshots and calls of the broker succeed or fail in any
way.  Under the key of each client the raw topic and the dead-letter topic have, in order, what the
calls of the producer in the live parts of its own sessions have appended.  Each part is without a
gap from the id of the book at its start on, all its events are of the client's symbol, and no call
but the last one of a part has raised. -/
theorem topics_of_client (modelDumpJson : OrderBookEvent → Except PyError String)
    (symbol : κ → String) (hinjective : Function.Injective symbol) {σ : Service κ}
    (h : Machine.Reaches (Service.Step modelDumpJson symbol) Service.start σ) (i : κ) :
    (σ.raw.filter fun m => m.key = rawKey (symbol i))
        = ((σ.clients i).parts.flatMap LivePart.handed).flatMap (fun h => h.produced.raw) ∧
      (σ.dlq.filter fun m => m.originalKey = rawKey (symbol i))
        = ((σ.clients i).parts.flatMap LivePart.handed).flatMap (fun h => h.produced.dlq) ∧
      ∀ part ∈ (σ.clients i).parts, Continuous part.start (part.handed.map Handed.event) ∧
        (∀ h ∈ part.handed, h.Made modelDumpJson (symbol i)) ∧
        ∀ h ∈ part.handed.dropLast, h.produced.raised = none := by
  have hfiled := Service.filed_of_reaches hinjective h
  have hclient := (Service.sound_of_reaches h).clients i
  refine ⟨hfiled.raw i, hfiled.dlq i, fun part hpart => ?_⟩
  refine ⟨hclient.continuous part hpart, fun h hh => ?_, hclient.calm part hpart⟩
  exact hclient.made h (List.mem_flatMap.mpr ⟨part, hpart, hh⟩)

/-! ## A session without interruption -/

/-- An event that the topic has taken. -/
def acknowledged (event : OrderBookEvent) : Handed :=
  ⟨event, [⟨rawKey event.symbol, event⟩], [], none⟩

/-- The service behind some frames of a client whose events the topic has taken. -/
def Service.streamed (σ : Service κ) (i : κ) (book : OrderBook) (part : LivePart)
    (events : List OrderBookEvent) : Service κ :=
  { σ.set i { σ.clients i with
      phase := .live book ⟨part.start, part.handed ++ events.map acknowledged⟩ } with
    raw := σ.raw ++ events.map fun event => ⟨rawKey event.symbol, event⟩ }

lemma streamed_nil {σ : Service κ} {i : κ} {book : OrderBook} {part : LivePart}
    (hphase : (σ.clients i).phase = .live book part) : σ.streamed i book part [] = σ := by
  have hclient : ({ σ.clients i with phase := .live book part } : ClientState) = σ.clients i := by
    rw [← hphase]
  simp [Service.streamed, Service.set, hclient]

lemma streamed_cons (σ : Service κ) (i : κ) (book book' : OrderBook) (part : LivePart)
    (event : OrderBookEvent) (events : List OrderBookEvent) :
    (σ.streamed i book part [event]).streamed i book'
        ⟨part.start, part.handed ++ [acknowledged event]⟩ events
      = σ.streamed i book' part (event :: events) := by
  simp [Service.streamed, Service.set]

/-- **The frames of a client**, one after the other, while the others wait. -/
lemma reaches_streamed (symbol : κ → String) (σ : Service κ) {i : κ} {book book' : OrderBook}
    (part : LivePart) {frames : List Frame} {effects : List Effect} (hopen : σ.status.Open)
    (hphase : (σ.clients i).phase = .live book part)
    (hrun : Transducer.run (onFrame (symbol i)) book frames = .ok (book', effects)) :
    Machine.Reaches (Service.Step (fun _ => .ok "") symbol) σ
      (σ.streamed i book' part (publishedOf effects)) := by
  induction frames generalizing σ book part effects with
  | nil =>
      cases hrun
      rw [show publishedOf [] = [] from rfl, streamed_nil hphase]
  | cons f frames ih =>
      obtain ⟨mid, out, effects', hframe, hrest, rfl⟩ := Transducer.run_cons_ok.mp hrun
      rw [publishedOf_append]
      rcases onFrame_ok hframe with ⟨_, hnone, rfl⟩ | ⟨event, hevent, _⟩
      · rw [hnone, List.nil_append]
        exact ih σ part hopen hphase hrest
      · have hstep : Service.Step (fun _ => .ok "") symbol σ (σ.streamed i mid part [event]) := by
          have hhand : σ.streamed i mid part [event] = σ.hand i mid part (acknowledged event) := by
            simp [Service.streamed, Service.hand, ClientState.hand, Service.set, acknowledged]
          rw [hhand]
          exact .produced 0 .acknowledged .acknowledged hopen hphase hframe hevent
        rw [hevent, List.singleton_append, ← streamed_cons]
        exact .head hstep (ih _ _ hopen (by simp [Service.streamed, Service.set]) hrest)

/-- What a session that loses its connection leaves: its events in the topic and one more part of the
client's history, and a client that connects again. -/
structure Service.AfterSession (σ : Service κ) (i : κ) (events : List OrderBookEvent)
    (σ' : Service κ) : Prop where
  raw : σ'.raw = σ.raw ++ events.map fun event => ⟨rawKey event.symbol, event⟩
  status : σ'.status = .running
  parts : ∃ start, (σ'.clients i).parts = (σ.clients i).parts ++ [⟨start, events.map acknowledged⟩]
  phase : (σ'.clients i).phase = .connecting
  retries : (σ'.clients i).retries = (σ.clients i).retries + 1
  others : ∀ j, j ≠ i → σ'.clients j = σ.clients j

/-- **A session of its own is a run of the service**, with sends that succeed and a connection that
is lost in the end. -/
lemma reaches_session (symbol : κ → String) (σ : Service κ) (i : κ) {session : Session}
    {book : OrderBook} {effects : List Effect} (hstatus : σ.status = .running)
    (hphase : (σ.clients i).phase = .connecting) (hretries : (σ.clients i).retries < maxRetries)
    (hsymbol : session.symbol = symbol i) (hrun : runOnce session = .ok (book, effects)) :
    ∃ σ', Machine.Reaches (Service.Step (fun _ => .ok "") symbol) σ σ' ∧
      σ.AfterSession i (publishedOf effects) σ' := by
  obtain ⟨⟨first, effects₁⟩, hinit, hrest⟩ := bind_eq_ok.mp hrun
  obtain ⟨⟨last, effects₂⟩, hlive, heffects⟩ := bind_eq_ok.mp hrest
  rw [hsymbol] at hlive
  cases heffects
  rw [publishedOf_append, publishedOf_initializeBook hinit, List.nil_append]
  have hopen : σ.status.Open := by
    rw [hstatus]
    trivial
  have hfirst : Service.Step (fun _ => .ok "") symbol σ (σ.set i
      { σ.clients i with phase := .live first ⟨first.lastUpdateId, []⟩ }) :=
    .initialized hopen hphase hsymbol hinit
  have hstreamed := reaches_streamed symbol
    (σ.set i { σ.clients i with phase := .live first ⟨first.lastUpdateId, []⟩ })
    ⟨first.lastUpdateId, []⟩ hopen (by simp [Service.set]) hlive
  have hlost := ((Relation.ReflTransGen.single hfirst).trans hstreamed).tail
    (.failed (i := i) .connectionError hopen (by simp [Service.streamed, Service.set]))
  have hfew : ¬ (σ.clients i).retries + 1 > maxRetries := by omega
  refine ⟨_, hlost, ?_⟩
  constructor
  · rfl
  · simp [Service.endSession, ClientState.endSession, Service.streamed, Service.set, reaction, hfew,
      Status.leave, hstatus]
  · refine ⟨first.lastUpdateId, ?_⟩
    rw [clients_endSession_self, (endSession_spec _ _).1]
    simp [Service.streamed, Service.set, ClientState.parts, Phase.part, hphase]
  · simp [Service.endSession, ClientState.endSession, Service.streamed, Service.set, reaction, hfew]
  · simp [Service.endSession, ClientState.endSession, Service.streamed, Service.set, reaction, hfew]
  · intro j hj
    rw [clients_endSession_other hj]
    simp [Service.streamed, Service.set, Function.update_of_ne hj]

/-- The symbols of two clients. -/
def twoSymbols : Bool → String
  | true => "btcusdt"
  | false => "ethusdt"

lemma twoSymbols_injective : Function.Injective twoSymbols := by
  intro a b h
  revert h
  cases a <;> cases b <;> decide

/-- Two clients: the first one publishes, loses its connection and begins again at the snapshot; the
other one publishes in between. -/
lemma reaches_reconnected :
    ∃ σ : Service Bool,
      Machine.Reaches (Service.Step (fun _ => .ok "") twoSymbols) Service.start σ ∧
      σ.raw = [⟨"binance#btcusdt", publicationOf "btcusdt" topEvent⟩,
        ⟨"binance#ethusdt", publicationOf "ethusdt" topEvent⟩,
        ⟨"binance#btcusdt", publicationOf "btcusdt" topEvent⟩,
        ⟨"binance#btcusdt", publicationOf "btcusdt" nextEvent⟩] ∧
      ∃ start start', (σ.clients true).parts =
        [⟨start, [acknowledged (publicationOf "btcusdt" topEvent)]⟩,
          ⟨start', [acknowledged (publicationOf "btcusdt" topEvent),
            acknowledged (publicationOf "btcusdt" nextEvent)]⟩] := by
  obtain ⟨_, _, hrun₁, hevents₁⟩ := @exists_run_of_published (sessionOf "btcusdt" [topEvent])
    [publicationOf "btcusdt" topEvent] (by decide +kernel)
  obtain ⟨_, _, hrun₂, hevents₂⟩ := @exists_run_of_published (sessionOf "ethusdt" [topEvent])
    [publicationOf "ethusdt" topEvent] (by decide +kernel)
  obtain ⟨_, _, hrun₃, hevents₃⟩ := @exists_run_of_published
    (sessionOf "btcusdt" [topEvent, nextEvent])
    [publicationOf "btcusdt" topEvent, publicationOf "btcusdt" nextEvent] (by decide +kernel)
  obtain ⟨σ₁, hreach₁, h₁⟩ :=
    reaches_session twoSymbols Service.start true rfl rfl (by decide) rfl hrun₁
  have hother : σ₁.clients false = (Service.start : Service Bool).clients false :=
    h₁.others false (by decide)
  obtain ⟨σ₂, hreach₂, h₂⟩ := reaches_session twoSymbols σ₁ false h₁.status
    (by rw [hother]; rfl) (by rw [hother]; decide) rfl hrun₂
  have hsame : σ₂.clients true = σ₁.clients true := h₂.others true (by decide)
  obtain ⟨σ₃, hreach₃, h₃⟩ := reaches_session twoSymbols σ₂ true h₂.status
    (by rw [hsame, h₁.phase]) (by rw [hsame, h₁.retries]; decide) rfl hrun₃
  refine ⟨σ₃, (hreach₁.trans hreach₂).trans hreach₃, ?_, ?_⟩
  · rw [h₃.raw, h₂.raw, h₁.raw, hevents₁, hevents₂, hevents₃]
    rfl
  · obtain ⟨start, hfirst⟩ := h₁.parts
    obtain ⟨start', hsecond⟩ := h₃.parts
    refine ⟨start, start', ?_⟩
    rw [hsecond, hsame, hfirst, hevents₁, hevents₃]
    rfl

theorem topics_of_client_sample :
    ∃ σ : Service Bool,
      Machine.Reaches (Service.Step (fun _ => .ok "") twoSymbols) Service.start σ ∧
      σ.raw.length = 4 ∧ (σ.clients true).parts.length = 2 ∧
      (σ.raw.filter fun m => m.key = rawKey "btcusdt")
        = ((σ.clients true).parts.flatMap LivePart.handed).flatMap (fun h => h.produced.raw) ∧
      (σ.raw.filter fun m => m.key = rawKey "btcusdt").length = 3 ∧
      ∀ part ∈ (σ.clients true).parts, Continuous part.start (part.handed.map Handed.event) := by
  obtain ⟨σ, hreach, hraw, start, start', hparts⟩ := reaches_reconnected
  obtain ⟨hfiled, _, hall⟩ := topics_of_client _ twoSymbols twoSymbols_injective hreach true
  refine ⟨σ, hreach, ?_, ?_, hfiled, ?_, fun part hpart => (hall part hpart).1⟩
  · rw [hraw]
    rfl
  · rw [hparts]
    rfl
  · rw [hraw]
    decide +kernel

/-- **When the service goes down.**  An exception leaves the service if and only if some client has
had more failed sessions in a row than it may; until then every client has had at most ten, and
after it the others stop too. -/
theorem fails_iff (modelDumpJson : OrderBookEvent → Except PyError String) (symbol : κ → String)
    {σ : Service κ}
    (h : Machine.Reaches (Service.Step modelDumpJson symbol) Service.start σ) :
    (σ.status.Failed ↔ ∃ i, ¬ Bearable (σ.clients i).outcomes) ∧
      (¬ σ.status.Failed → ∀ i, failuresInRow (σ.clients i).outcomes ≤ maxRetries) := by
  have hsound := Service.sound_of_reaches h
  have hgone : ∀ i, (σ.clients i).phase = .gaveUp ↔ ¬ Bearable (σ.clients i).outcomes := by
    intro i
    refine ⟨(hsound.clients i).exhausted, fun hnot => ?_⟩
    by_contra hgoes
    exact hnot (retriesAfter_eq_some.mp ((hsound.clients i).counts hgoes)).1
  have hiff : σ.status.Failed ↔ ∃ i, ¬ Bearable (σ.clients i).outcomes :=
    hsound.failed.trans (exists_congr hgone)
  refine ⟨hiff, fun hrunning i => ?_⟩
  rw [hiff, not_exists] at hrunning
  exact not_not.mp (hrunning i) _ (List.prefix_refl _)

/-- A client that never gets a connection, so far. -/
lemma reaches_failures (n : ℕ) (hn : n ≤ maxRetries) :
    ∃ σ : Service Unit, Machine.Reaches
        (Service.Step (fun _ => .ok "") fun _ => "btcusdt") Service.start σ ∧
      σ.status = .running ∧ (σ.clients ()).phase = .connecting ∧ (σ.clients ()).retries = n := by
  induction n with
  | zero => exact ⟨Service.start, .refl, rfl, rfl, rfl⟩
  | succ n ih =>
      obtain ⟨σ, hreach, hstatus, hphase, hretries⟩ := ih (by omega)
      have hfew : ¬ n + 1 > maxRetries := by omega
      refine ⟨_, hreach.tail (.failed (i := ()) .connectionError ?_ ?_), ?_, ?_, ?_⟩
      · rw [hstatus]
        trivial
      · rw [hphase]
        exact Phase.noConfusion
      · simp [Service.endSession, ClientState.endSession, reaction, hretries, hfew, hstatus,
          Status.leave]
      · simp [Service.endSession, Service.set, ClientState.endSession, reaction, hretries, hfew]
      · simp [Service.endSession, Service.set, ClientState.endSession, reaction, hretries, hfew]

theorem fails_iff_sample :
    ∃ σ : Service Unit, σ.status.Failed ∧ ¬ Bearable (σ.clients ()).outcomes := by
  obtain ⟨σ, hreach, hstatus, hphase, hretries⟩ := reaches_failures maxRetries le_rfl
  have hlast := hreach.tail (.failed (i := ()) .connectionError (by rw [hstatus]; trivial)
    (by rw [hphase]; exact Phase.noConfusion))
  have hfailed : (σ.endSession () (some .connectionError)).status.Failed := by
    simp [Service.endSession, ClientState.endSession, reaction, hretries, hstatus, Status.leave,
      Status.Failed]
  obtain ⟨_, hnot⟩ := (fails_iff _ _ hlast).1.mp hfailed
  exact ⟨_, hfailed, hnot⟩

end Whole

end Ticksense
