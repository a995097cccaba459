import TeensyIo.HostClient
import TeensyIo.CommutingWords
import TeensyIo.MachineRuns

/-! # The bytes the decoder is fed

One thread runs `_poll_async_packets`, which reads under the transport lock and feeds the
decoder after releasing it; any number of others run `_command`, which reads and feeds under the
lock. The sections under the lock and the feeds are the steps. -/
namespace DecoderInput

open HostProtocol HostClient MachineRuns CommutingWords

/-- The variables of `_poll_async_packets`; `timed` says that its timeout is positive. -/
structure Poll where
  timed : Bool
  budget : ℤ
  drained : ℤ := 0
  deriving DecidableEq

/-- Where the polling thread stands: before the section of `read_available`, before that of
`_read_some`, or before the feed of what it has read. -/
inductive PollPoint where
  | idle
  | draining (p : Poll)
  | blocking (p : Poll)
  | holding (p : Poll) (data : List UInt8)
  deriving DecidableEq

/-- What happens before a read and what the read finds: the bytes that come in, and how many of
the waiting ones the transport gives. -/
structure Wait where
  arriving : List UInt8 := []
  available : ℕ × ℕ

/-- `read` and `fed` are what the transport has returned and what the decoder has been given;
`passed` is what calls of `_command` have read since the last read of the poll. -/
structure Port where
  waiting : List UInt8 := []
  decoder : PacketDecoder := {}
  issued : ℕ := 0
  poll : PollPoint := .idle
  /-- The number of the command a thread is about to send. -/
  callers : ℕ → Option ℕ := fun _ => none
  handed : List Packet := []
  /-- What `_read_response` and `_poll_async_packets` have returned or raised. -/
  responses : List (ℕ × Except PyError Packet) := []
  drains : List (Except PyError ℤ) := []
  read : List (List UInt8) := []
  fed : List (List UInt8) := []
  passed : List UInt8 := []

inductive Move where
  | arrive (bytes : List UInt8)
  | startPoll (timed : Bool) (maxBytes : Option ℤ)
  | poll (expired : Bool) (wait : Wait)
  | call (t : ℕ)
  /-- The thread's section under the lock: the passes of its loop until the deadline. -/
  | locked (t : ℕ) (waits : List Wait)

namespace Port

def arrive (s : Port) (bytes : List UInt8) : Port := { s with waiting := s.waiting ++ bytes }

/-- The transport returns the data. -/
def take (s : Port) (data : List UInt8) : Port :=
  { s with waiting := s.waiting.drop data.length, read := s.read ++ [data] }

def feed (s : Port) (data : List UInt8) : Port × Except PyError (List Packet) :=
  let fed := s.decoder.feed data
  ({ s with decoder := fed.2, fed := s.fed ++ [data] }, fed.1)

def respond (s : Port) (number : ℕ) (result : Except PyError Packet) : Port :=
  { s with responses := s.responses ++ [(number, result)] }

/-- `_read_response`. -/
def readResponse (o : Options) (number : ℕ) (s : Port) : List Wait → Port
  | [] => s.respond number (.error .timeoutError)
  | wait :: waits =>
    let s := s.arrive wait.arriving
    let data := readSome s.waiting o.readChunkSize wait.available
    if data = [] then s.readResponse o number waits
    else
      let fed := ({ s with passed := s.passed ++ data }.take data).feed data
      match fed.2 with
      | .error error => fed.1.respond number (.error error)
      | .ok packets =>
        let handed := packets.takeWhile fun packet => packet.seq != sequence number
        let s := { fed.1 with handed := fed.1.handed ++ handed }
        match packets.drop handed.length with
        | [] => s.readResponse o number waits
        | packet :: _ => s.respond number (.ok packet)

/-- The poll has read, or found nothing and goes on. -/
def hold (s : Port) (p : Poll) (data : List UInt8) : Port :=
  { s.take data with
    poll := .holding { p with drained := p.drained + data.length } data
    passed := [] }

/-- The next step of `_poll_async_packets`. -/
def pollStep (o : Options) (s : Port) (expired : Bool) (wait : Wait) : PollPoint → Port
  | .idle => s
  | .draining p =>
    let s := s.arrive wait.arriving
    let limit := min o.readChunkSize (max 1 (p.budget - p.drained))
    let data := transportRead s.waiting limit wait.available.1
    if data ≠ [] then s.hold p data
    else if ¬ p.timed ∨ expired then
      { s with poll := .idle, drains := s.drains ++ [.ok p.drained] }
    else { s with poll := .blocking p }
  | .blocking p =>
    let s := s.arrive wait.arriving
    let limit := min o.readChunkSize (max 1 (p.budget - p.drained))
    let data := readSome s.waiting limit wait.available
    if data ≠ [] then s.hold p data else { s with poll := .draining p }
  | .holding p data =>
    let fed := s.feed data
    match fed.2 with
    | .error error => { fed.1 with poll := .idle, drains := fed.1.drains ++ [.error error] }
    | .ok packets =>
      let s := { fed.1 with handed := fed.1.handed ++ packets }
      if p.budget ≤ p.drained then
        { s with poll := .idle, drains := s.drains ++ [.ok p.drained] }
      else { s with poll := .draining p }

/-- A move that is not possible changes nothing. -/
def step (o : Options) (s : Port) : Move → Port
  | .arrive bytes => s.arrive bytes
  | .startPoll timed maxBytes =>
    if s.poll = .idle then
      { s with poll := .draining ⟨timed, maxBytes.getD o.readDrainMaxBytes, 0⟩ }
    else s
  | .poll expired wait => s.pollStep o expired wait s.poll
  | .call t =>
    match s.callers t with
    | none =>
      { s with
        issued := s.issued + 1
        callers := Function.update s.callers t (some (s.issued + 1)) }
    | some _ => s
  | .locked t waits =>
    match s.callers t with
    | none => s
    | some number =>
      { s with callers := Function.update s.callers t none }.readResponse o number waits

end Port

/-! ### Order -/

/-- The polling thread has read bytes it has not fed. -/
def Holds (s : Port) : Prop := ∃ p data, s.poll = .holding p data

/-- While no thread holds unfed bytes, the decoder has been fed what was read, in that order. -/
def ArrivalOrder (s : Port) : Prop := ¬ Holds s → s.fed.flatten = s.read.flatten

/-- What the poll has read is fed after what commands have read in the meantime, and the two
repeat one block of bytes. -/
def Unspliced (s : Port) : Move → Prop
  | .poll _ _ => ∀ p data, s.poll = .holding p data → Alike data s.passed
  | _ => True

/-- Nothing is missing but what the poll holds, and that was read before all that passed. -/
inductive Behind (s : Port) : Prop where
  | level : ¬ Holds s → s.fed.flatten = s.read.flatten → Behind s
  | holding (p : Poll) (data front : List UInt8) : s.poll = .holding p data →
      s.fed.flatten = front ++ s.passed → s.read.flatten = front ++ (data ++ s.passed) → Behind s

/-- The step reads and feeds the same chunks, and leaves the polling thread where it was. -/
structure Passes (s t : Port) : Prop where
  poll : t.poll = s.poll
  chunks : ∃ chunks, t.read = s.read ++ chunks ∧ t.fed = s.fed ++ chunks ∧
    t.passed = s.passed ++ chunks.flatten

theorem passes_nothing {s t : Port} (hpoll : t.poll = s.poll) (hread : t.read = s.read)
    (hfed : t.fed = s.fed) (hpassed : t.passed = s.passed) : Passes s t :=
  ⟨hpoll, [], by rw [hread, List.append_nil], by rw [hfed, List.append_nil],
    by rw [hpassed, List.flatten_nil, List.append_nil]⟩

theorem Passes.trans {s t u : Port} (h : Passes s t) (k : Passes t u) : Passes s u := by
  obtain ⟨xs, hread, hfed, hpassed⟩ := h.chunks
  obtain ⟨ys, hread', hfed', hpassed'⟩ := k.chunks
  refine ⟨k.poll.trans h.poll, xs ++ ys, ?_, ?_, ?_⟩
  · rw [hread', hread, List.append_assoc]
  · rw [hfed', hfed, List.append_assoc]
  · rw [hpassed', hpassed, List.flatten_append, List.append_assoc]

/-- The loop of `_read_response` feeds every chunk before it reads the next. -/
theorem readResponse_passes (o : Options) (number : ℕ) (waits : List Wait) (s : Port) :
    Passes s (s.readResponse o number waits) := by
  induction waits generalizing s with
  | nil => exact passes_nothing rfl rfl rfl rfl
  | cons wait waits ih =>
    rw [Port.readResponse]
    dsimp only
    generalize readSome _ _ _ = data
    have harrive : Passes s (s.arrive wait.arriving) := passes_nothing rfl rfl rfl rfl
    split_ifs
    · exact harrive.trans (ih _)
    · have hfed : ∀ t : Port, t.poll = s.poll → t.read = s.read ++ [data] →
          t.fed = s.fed ++ [data] → t.passed = s.passed ++ data → Passes s t :=
        fun t hpoll hread hfed hpassed => ⟨hpoll, [data], hread, hfed, by simpa using hpassed⟩
      split
      · exact hfed _ rfl rfl rfl rfl
      · split
        · refine Passes.trans ?_ (ih _)
          exact hfed _ rfl rfl rfl rfl
        · exact hfed _ rfl rfl rfl rfl

theorem Passes.behind {s t : Port} (h : Passes s t) (hbehind : Behind s) : Behind t := by
  obtain ⟨chunks, hread, hfed, hpassed⟩ := h.chunks
  cases hbehind with
  | level hidle hlevel =>
    refine .level ?_ ?_
    · rwa [Holds, h.poll]
    · rw [hfed, hread, List.flatten_append, List.flatten_append, hlevel]
  | holding p data front hpoll hfront hrest =>
    refine .holding p data front (h.poll.trans hpoll) ?_ ?_
    · rw [hfed, hpassed, List.flatten_append, hfront, List.append_assoc]
    · rw [hread, hpassed, List.flatten_append, hrest]
      simp only [List.append_assoc]

section Polling

variable {s : Port} {p : Poll}

/-- Between the sections nothing moves. -/
theorem Behind.goto (h : Behind s) (hidle : ¬ Holds s) {t : Port} (hread : t.read = s.read)
    (hfed : t.fed = s.fed) (ht : ¬ Holds t) : Behind t := by
  cases h with
  | level _ hlevel => exact .level ht (by rw [hread, hfed, hlevel])
  | holding p data front hpoll => exact absurd ⟨p, data, hpoll⟩ hidle

theorem Behind.hold (h : Behind s) (hidle : ¬ Holds s) (data : List UInt8) :
    Behind (s.hold p data) := by
  cases h with
  | level _ hlevel =>
    refine .holding _ data s.fed.flatten rfl (List.append_nil _).symm ?_
    change (s.read ++ [data]).flatten = _
    rw [List.flatten_append, hlevel, List.flatten_singleton]
    exact congrArg _ (List.append_nil data).symm
  | holding p data front hpoll => exact absurd ⟨p, data, hpoll⟩ hidle

/-- Reading is behind the lock, so the poll holds nothing when it reads. -/
theorem pollStep_behind (o : Options) (h : Behind s) (expired : Bool) (wait : Wait)
    {point : PollPoint} (hpoint : s.poll = point) (hfree : ∀ p data, point ≠ .holding p data) :
    Behind (s.pollStep o expired wait point) := by
  have hidle : ¬ Holds s := by
    rintro ⟨p, data, hholding⟩
    exact hfree p data (hpoint.symm.trans hholding)
  have harrive : Behind (s.arrive wait.arriving) := h.goto hidle rfl rfl hidle
  cases point with
  | idle => exact h
  | draining p =>
    simp only [Port.pollStep]
    split_ifs
    · exact harrive.hold hidle _
    · exact harrive.goto hidle rfl rfl (by simp [Holds])
    · exact harrive.goto hidle rfl rfl (by simp [Holds])
  | blocking p =>
    simp only [Port.pollStep]
    split_ifs
    · exact harrive.hold hidle _
    · exact harrive.goto hidle rfl rfl (by simp [Holds])
  | holding p data => exact absurd rfl (hfree p data)

/-- The feed of what the poll holds. -/
theorem pollStep_feeds (o : Options) (s : Port) (expired : Bool) (wait : Wait) (p : Poll)
    (data : List UInt8) :
    let t := s.pollStep o expired wait (.holding p data)
    t.fed = s.fed ++ [data] ∧ t.read = s.read ∧ ¬ Holds t := by
  simp only [Port.pollStep]
  split
  · exact ⟨rfl, rfl, by simp [Holds]⟩
  · split_ifs
    · exact ⟨rfl, rfl, by simp [Holds]⟩
    · exact ⟨rfl, rfl, by simp [Holds]⟩

end Polling

/-- A step that is not the feed of the poll leaves nothing more behind. -/
theorem step_behind (o : Options) {s : Port} (h : Behind s) (move : Move)
    (hother : ∀ expired wait, move = .poll expired wait → ¬ Holds s) :
    Behind (s.step o move) := by
  cases move with
  | arrive bytes => exact Passes.behind (s := s) (passes_nothing rfl rfl rfl rfl) h
  | startPoll timed maxBytes =>
    simp only [Port.step]
    split_ifs with hpoll
    · exact h.goto (by simp [Holds, hpoll]) rfl rfl (by simp [Holds])
    · exact h
  | poll expired wait =>
    refine pollStep_behind o h expired wait rfl fun p data hpoll => ?_
    exact hother expired wait rfl ⟨p, data, hpoll⟩
  | call t =>
    simp only [Port.step]
    split
    · exact Passes.behind (s := s) (passes_nothing rfl rfl rfl rfl) h
    · exact h
  | locked t waits =>
    simp only [Port.step]
    split
    · exact h
    · refine (Passes.trans ?_ (readResponse_passes o _ waits _)).behind h
      exact passes_nothing rfl rfl rfl rfl

/-- The two orders in which the feed of the poll and what has passed it can stand. -/
theorem feed_order (o : Options) {s : Port} (h : Behind s) {p : Poll} {data : List UInt8}
    (hpoll : s.poll = .holding p data) (expired : Bool) (wait : Wait) :
    let t := s.step o (.poll expired wait)
    ¬ Holds t ∧ (t.fed.flatten = t.read.flatten ↔ Alike data s.passed) := by
  have hstep : s.step o (.poll expired wait) = s.pollStep o expired wait (.holding p data) := by
    rw [Port.step, hpoll]
  obtain ⟨hfed, hread, hidle⟩ := pollStep_feeds o s expired wait p data
  rw [hstep]
  refine ⟨hidle, ?_⟩
  cases h with
  | level hidle => exact absurd ⟨p, data, hpoll⟩ hidle
  | holding p' data' front hpoll' hfront hrest =>
    obtain ⟨rfl, rfl⟩ : p' = p ∧ data' = data := by
      simpa using hpoll'.symm.trans hpoll
    rw [hfed, hread, hrest, List.flatten_append, hfront, List.flatten_singleton, List.append_assoc,
      List.append_right_inj, eq_comm]
    exact append_comm_iff

/-- For every run of the polling thread and any number of commanding threads: the decoder is fed
in arrival order at every moment at which no thread holds unfed bytes, exactly if, whenever the
poll feeds what it holds, this and what commands have read since repeat one block. -/
theorem arrival_order_iff (o : Options) (moves : List Move) :
    EachState (Port.step o) ArrivalOrder {} moves ↔ EachStep (Port.step o) Unspliced {} moves := by
  have hinitial : Behind {} := .level (by simp [Holds]) rfl
  have hfeed : ∀ {s : Port} {move : Move}, Behind s →
      (∀ p data, s.poll = .holding p data → ∀ expired wait, move = .poll expired wait →
        (s.step o move).fed.flatten = (s.step o move).read.flatten) →
      Behind (s.step o move) := by
    intro s move h hlevel
    by_cases hholds : Holds s
    · obtain ⟨p, data, hpoll⟩ := hholds
      cases move with
      | poll expired wait =>
        have hidle := (feed_order o h hpoll expired wait).1
        exact .level hidle (hlevel p data hpoll expired wait rfl)
      | _ => exact step_behind o h _ nofun
    · exact step_behind o h move fun _ _ _ => hholds
  constructor
  · refine eachStep_of_goodStates (I := Behind) ?_ ?_ hinitial
    · rintro s move h - hnext
      refine hfeed h fun p data hpoll expired wait hmove => ?_
      subst hmove
      exact hnext (feed_order o h hpoll expired wait).1
    · rintro s move h - hnext
      cases move with
      | poll expired wait =>
        intro p data hpoll
        obtain ⟨hidle, horder⟩ := feed_order o h hpoll expired wait
        exact horder.mp (hnext hidle)
      | _ => trivial
  · refine eachState_of_eachStep (I := Behind) ?_ ?_ hinitial
    · intro s move h hunspliced
      refine hfeed h fun p data hpoll expired wait hmove => ?_
      subst hmove
      exact (feed_order o h hpoll expired wait).2.mpr (hunspliced p data hpoll)
    · intro s h hidle
      cases h with
      | level _ hlevel => exact hlevel
      | holding p data front hpoll => exact absurd ⟨p, data, hpoll⟩ hidle

/-- The poll has read the first five bytes of a telemetry frame; a heartbeat reads and feeds the
rest with its own response; then the poll feeds what it holds. -/
def splicedFrame : List Move :=
  [.startPoll false none, .poll false ⟨[0xA5, 1, 6, 0, 0], (5, 0)⟩, .call 1,
    .locked 1 [⟨[6, 0, 3, 0, 7, 0, 0, 0, 0x7E, 0x69, 0xA5, 1, 2, 1, 0, 1, 0, 0, 0x8E, 0x5F],
      (1, 4096)⟩],
    .poll false ⟨[], (0, 0)⟩]

/-- All bytes of the telemetry frame have been read and fed, and it is never handed on. -/
theorem spliced_frame_lost :
    let s := after (Port.step {}) {} splicedFrame
    s.poll = .draining ⟨false, 262144, 5⟩ ∧ s.responses = [(1, .ok ⟨.ack, 1, [0]⟩)] ∧
      s.handed = [] ∧ s.fed.flatten ≠ s.read.flatten ∧
      ¬ EachState (Port.step {}) ArrivalOrder {} splicedFrame := by
  intro s
  have hpoll : s.poll = .draining ⟨false, 262144, 5⟩ := by decide +kernel
  have horder : s.fed.flatten ≠ s.read.flatten := by decide +kernel
  refine ⟨hpoll, by decide +kernel, by decide +kernel, horder, fun hstates => ?_⟩
  refine horder (eachState_after hstates ?_)
  rintro ⟨p, data, hholding⟩
  cases hpoll.symm.trans hholding

end DecoderInput
