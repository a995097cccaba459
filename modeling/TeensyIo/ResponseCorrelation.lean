import TeensyIo.DeviceLink

/-! # Responses find their commands

`_read_response` takes the first frame that carries the number of its command modulo 2^16.
Under the promise that no response is 65536 commands late this is the command's own response,
unless the number is a multiple of 65536 and an unsolicited frame, which carries zero, comes
first. -/
namespace ResponseCorrelation

open WireCommands HostProtocol HostClient HostSession DeviceLink MachineRuns
open FirmwareState FirmwareResponses

variable {b : Board} {o : Options}

/-- A response that is read in by this step is fewer than 65536 commands late. -/
def Timely (b : Board) (o : Options) (l : Link) (i : Input) : Prop :=
  ∀ place number : ℕ, l.origins[place]? = some (.response number) →
    l.session.decoded ≤ place → place < (l.step b o i).session.decoded →
      l.session.client.issued < number + 65536

/-- If `_read_response` returns a packet, then it is the response the firmware wrote when it
handled this very command. -/
def OwnResponse (l : Link) : Input → Prop
  | .host .next =>
    match l.session.stack with
    | ⟨.readResponse number, .delivering (arrival :: _) _⟩ :: _ =>
      (Call.readResponse number).returns arrival.1 = true →
        l.origins[arrival.2]? = some (.response number) ∧
          l.session.sent[arrival.2]? = some arrival.1 ∧
          (arrival.1.type = .ack ∨ arrival.1.type = .nack ∨ arrival.1.type = .data)
    | _ => True
  | _ => True

/-- No call whose number is a multiple of 65536 meets an unsolicited frame, and none meets the
response to a command that a callback issued a multiple of 65536 commands later. -/
def Unconfused (l : Link) : Input → Prop
  | .host .next =>
    match l.session.stack with
    | ⟨.readResponse number, .delivering (arrival :: _) _⟩ :: _ =>
      (l.origins[arrival.2]? = some .unsolicited → ¬ 65536 ∣ number) ∧
        ∀ later, l.origins[arrival.2]? = some (.response later) → number < later →
          ¬ 65536 ∣ later - number
    | _ => True
  | _ => True

/-! ### The calls that wait -/

/-- The call's command has been issued, and the responses in its hands are not late. -/
def Prompt (issued : ℕ) (origins : List Origin) (a : Activity) : Prop :=
  ∀ number, a.call = .readResponse number → number ≤ issued ∧
    ∀ x ∈ a.pending, ∀ answered, origins[x.2]? = some (.response answered) →
      number < answered + 65536

structure Orderly (l : Link) : Prop extends Linked l where
  prompt : ∀ a ∈ l.session.stack, Prompt l.session.client.issued l.origins a

theorem orderly_initial : Orderly {} := ⟨linked_initial, by simp⟩

theorem mem_outstanding {s : Session} {a : Activity} (ha : a ∈ s.stack) {x : Arrival}
    (hx : x ∈ a.pending) : x ∈ s.outstanding :=
  List.mem_flatMap.mpr ⟨a, List.mem_reverse.mpr ha, hx⟩

theorem Prompt.later {issued : ℕ} {origins more : List Origin} {a : Activity}
    (h : Prompt issued origins a) (hplaces : ∀ x ∈ a.pending, x.2 < origins.length) :
    Prompt issued (origins ++ more) a := by
  intro number hcall
  obtain ⟨hle, hprompt⟩ := h number hcall
  refine ⟨hle, fun x hx answered horigin => hprompt x hx answered ?_⟩
  rwa [List.getElem?_append_left (hplaces x hx)] at horigin

theorem transmit_session (l : Link) (origin : Origin) (frames : List Written) :
    (∃ more, (l.transmit origin frames).origins = l.origins ++ more) ∧
      (l.transmit origin frames).session.stack = l.session.stack ∧
      (l.transmit origin frames).session.client = l.session.client := by
  induction frames generalizing l with
  | nil => exact ⟨⟨[], (List.append_nil _).symm⟩, rfl, rfl⟩
  | cons w frames ih =>
    obtain ⟨⟨more, hmore⟩, hstack, hclient⟩ := ih (l.write origin w)
    exact ⟨⟨origin :: more, hmore.trans (List.append_assoc ..)⟩, hstack, hclient⟩

theorem Orderly.placed {l : Link} (h : Orderly l) :
    ∀ a ∈ l.session.stack, ∀ x ∈ a.pending, x.2 < l.origins.length := by
  intro a ha x hx
  rw [h.places]
  exact (List.getElem?_eq_some_iff.mp (h.held x (mem_outstanding ha hx))).1

/-- Frames written later do not concern the packets in hand. -/
theorem transmit_prompt {l : Link} (origin : Origin) (frames : List Written)
    (hprompt : ∀ a ∈ l.session.stack, Prompt l.session.client.issued l.origins a)
    (hplaced : ∀ a ∈ l.session.stack, ∀ x ∈ a.pending, x.2 < l.origins.length) :
    ∀ a ∈ (l.transmit origin frames).session.stack,
      Prompt (l.transmit origin frames).session.client.issued
        (l.transmit origin frames).origins a := by
  obtain ⟨⟨more, hmore⟩, hstack, hclient⟩ := transmit_session l origin frames
  rw [hmore, hstack, hclient]
  exact fun a ha => (hprompt a ha).later (hplaced a ha)

theorem stepped_prompt {l : Link} {move : HostMove} (h : Orderly l)
    (ht : Timely b o l (.host move)) :
    ∀ a ∈ (l.session.host o move).stack,
      Prompt (l.session.host o move).client.issued l.origins a := by
  have hstep := step_stepped o l.session (.host move)
  have hknown : ∀ n, (∃ old ∈ l.session.stack, old.call = .readResponse n) →
      n ≤ l.session.client.issued := by
    rintro n ⟨old, hold, hcall⟩
    exact (h.prompt old hold n hcall).1
  change Stepped o l.session (.host move) (l.session.host o move) at hstep
  have hdecoded : (l.step b o (.host move)).session = l.session.host o move := rfl
  rw [Timely, hdecoded] at ht
  generalize l.session.host o move = t at *
  cases hstep with
  | quiet q =>
    intro a ha number hcall
    rcases q.stack a ha with hold | hfresh
    · obtain ⟨hle, hprompt⟩ := h.prompt a hold number hcall
      exact ⟨hle.trans q.inbox.issued, hprompt⟩
    · refine ⟨?_, fun x hx => by rw [hfresh.idle] at hx; cases hx⟩
      rcases hfresh.call number hcall with rfl | hold
      · exact le_rfl
      · exact (hknown number hold).trans q.inbox.issued
  | taken hmove => rcases hmove with rfl | rfl <;> exact h.prompt
  | @read _ call below data hstack hne hdata =>
    obtain ⟨packets, hread⟩ := ingest_readIn h.onStream call below hne hdata
    obtain ⟨n, hloop⟩ := hread.stack
    rw [hloop, hread.client]
    intro a ha
    rcases List.mem_cons.mp ha with rfl | ha
    · intro number hcall
      have hle : number ≤ l.session.client.issued := by
        refine hknown number ⟨⟨call, .looking⟩, by rw [hstack]; exact List.mem_cons_self, ?_⟩
        cases call with
        | readResponse m => exact hcall
        | pollAsyncPackets timed budget drained => cases hcall
      refine ⟨hle, fun x hx answered horigin => ?_⟩
      obtain ⟨hge, hlt⟩ := hread.new_places x hx
      exact hle.trans_lt (ht x.2 answered horigin hge hlt)
    · exact h.prompt a (by rw [hstack]; exact List.mem_cons_of_mem _ ha)
  | @answered call below arrival rest inCallback hstack hreturns =>
    have hbelow : ∀ a ∈ below, Prompt l.session.client.issued l.origins a :=
      fun a ha => h.prompt a (by rw [hstack]; exact List.mem_cons_of_mem _ ha)
    cases call <;> exact hbelow
  | @handed call below arrival rest inCallback hstack hreturns =>
    have hsame := hand_outbox o l.session call below arrival rest
    rw [hsame.issued]
    intro a ha
    rcases List.mem_cons.mp ha with rfl | ha
    · intro number hcall
      obtain ⟨hle, hprompt⟩ := h.prompt ⟨call, .delivering (arrival :: rest) inCallback⟩
        (by rw [hstack]; exact List.mem_cons_self) number hcall
      exact ⟨hle, fun x hx => hprompt x (List.mem_cons_of_mem arrival hx)⟩
    · exact h.prompt a (by rw [hstack]; exact List.mem_cons_of_mem _ ha)

theorem byte_prompt {l : Link} (h : Orderly l) (env : Env) :
    ∀ a ∈ (l.step b o (.byte env)).session.stack,
      Prompt (l.step b o (.byte env)).session.client.issued
        (l.step b o (.byte env)).origins a := by
  simp only [Link.step]
  split
  · exact h.prompt
  · split
    · exact h.prompt
    · exact transmit_prompt _ _ h.prompt h.placed

theorem step_orderly {l : Link} {i : Input} (h : Orderly l) (ht : Timely b o l i) :
    Orderly (l.step b o i) := by
  refine ⟨step_linked b h.toLinked i, ?_⟩
  cases i with
  | host move => exact stepped_prompt h ht
  | byte env => exact byte_prompt h env
  | update env => exact transmit_prompt _ _ h.prompt h.placed
  | counterTick env id => exact h.prompt
  | encoderTick env id => exact h.prompt

/-! ### Which frame a call takes -/

theorem sequence_zero (number : ℕ) : sequence number = 0 ↔ 65536 ∣ number := by
  rw [sequence_eq, Nat.dvd_iff_mod_eq_zero]

/-- The response to command `answered` carries the number of command `number`. -/
theorem same_sequence {number answered : ℕ} (hlate : number < answered + 65536)
    (hlater : number < answered → ¬ 65536 ∣ answered - number) :
    sequence answered = sequence number ↔ answered = number := by
  rw [sequence_eq, sequence_eq]
  constructor
  · intro h
    by_cases hlt : number < answered
    · exact absurd (Nat.dvd_of_mod_eq_zero (Nat.sub_mod_eq_zero_of_mod_eq h)) (hlater hlt)
    · omega
  · exact congrArg (· % 65536)

theorem own_iff_unconfused {l : Link} (h : Orderly l) (i : Input) :
    OwnResponse l i ↔ Unconfused l i := by
  unfold OwnResponse Unconfused
  split
  · split
    · rename_i number arrival rest inCallback below hstack
      have htop : (⟨.readResponse number, .delivering (arrival :: rest) inCallback⟩ : Activity) ∈
          l.session.stack := by
        rw [hstack]
        exact List.mem_cons_self
      have hsent := h.held arrival (mem_outstanding htop List.mem_cons_self)
      have hprompt := (h.prompt _ htop number rfl).2 arrival List.mem_cons_self
      have hplace := h.placed _ htop arrival List.mem_cons_self
      obtain ⟨origin, horigin⟩ : ∃ origin, l.origins[arrival.2]? = some origin :=
        ⟨_, List.getElem?_eq_getElem hplace⟩
      have hlabel := h.labelled arrival.2 origin arrival.1 horigin hsent
      rw [horigin]
      simp only [Call.returns, beq_iff_eq]
      cases origin with
      | unsolicited =>
        obtain ⟨hseq, -⟩ := hlabel
        rw [hseq, eq_comm, sequence_zero]
        simp
      | response answered =>
        obtain ⟨-, hseq, htype⟩ := hlabel
        rw [hseq]
        constructor
        · refine fun hown => ⟨fun hnone => (by cases hnone), ?_⟩
          rintro later hlater hlt hdvd
          obtain rfl : answered = later := by simpa using hlater
          have hsame : sequence answered = sequence number := by
            rw [sequence_eq, sequence_eq]
            omega
          obtain ⟨horigin, -⟩ := hown hsame
          obtain rfl : answered = number := by simpa using horigin
          exact hlt.false
        · rintro ⟨-, hlater⟩ hsame
          obtain rfl := (same_sequence (hprompt answered horigin) (hlater answered rfl)).mp hsame
          exact ⟨rfl, hsent, htype⟩
    · exact Iff.rfl
  · exact Iff.rfl

/-- In a run without a response that is 65536 commands late every call takes its own response,
exactly if no call is confused by its number. -/
theorem correlated_iff (b : Board) (o : Options) (inputs : List Input)
    (hlate : EachStep (Link.step b o) (Timely b o) {} inputs) :
    EachStep (Link.step b o) OwnResponse {} inputs ↔
      EachStep (Link.step b o) Unconfused {} inputs :=
  eachStep_congr (fun _ _ ht h => step_orderly h ht) (fun _ i _ h => own_iff_unconfused h i)
    orderly_initial hlate

/-! ### Runs of few commands -/

theorem host_issued (s : Session) (move : HostMove) :
    s.client.issued ≤ (s.host o move).client.issued :=
  stepped_issued (step_stepped o s (.host move))

theorem step_issued (l : Link) (i : Input) :
    l.session.client.issued ≤ (l.step b o i).session.client.issued := by
  cases i with
  | host move => exact host_issued l.session move
  | byte env =>
    simp only [Link.step]
    split
    · exact le_rfl
    · split
      · exact le_rfl
      · rw [Link.handle, (transmit_session _ _ _).2.2]
  | update env => simp only [Link.step, (transmit_session _ _ _).2.2, le_refl]
  | counterTick env id => exact le_rfl
  | encoderTick env id => exact le_rfl

/-- As long as fewer than 65536 commands have been issued no response can be late. -/
theorem timely_of_few {l : Link} {inputs : List Input}
    (hfew : (after (Link.step b o) l inputs).session.client.issued < 65536) :
    EachStep (Link.step b o) (Timely b o) l inputs := by
  have hgrow := (eachStep_le_after (step_issued (b := b) (o := o)) l inputs).1
  refine eachStep_mono (fun t i hle place number _ _ _ => ?_) hgrow
  have hissued : t.session.client.issued < 65536 := hle.trans_lt hfew
  omega

/-- A heartbeat, taken by the device and answered. -/
def heartbeatAnswered : List Input :=
  [.host (.command .heartbeat [] true)] ++ List.replicate 10 (.byte (FirmwareDevice.envAt 0)) ++
    [.host (.read false 0 (1, 4096)), .host .next]

theorem heartbeat_correlated :
    (after (Link.step FirmwareDevice.sampleBoard {}) {} heartbeatAnswered).session.finished =
        [(1, .ok [])] ∧
      (EachStep (Link.step FirmwareDevice.sampleBoard {}) OwnResponse {} heartbeatAnswered ↔
        EachStep (Link.step FirmwareDevice.sampleBoard {}) Unconfused {} heartbeatAnswered) :=
  ⟨by decide +kernel, correlated_iff _ _ heartbeatAnswered (timely_of_few (by decide +kernel))⟩

/-! ### The 65536th command -/

def heartbeatPacket (number : ℕ) : Packet := commandPacket number .heartbeat []

theorem heartbeatPacket_sendable (number : ℕ) :
    WireCompatibility.Sendable (heartbeatPacket number) :=
  ⟨sequence_lt number, by simp [heartbeatPacket, commandPacket, WireFrame.maxPayload]⟩

/-- Outside a batch a heartbeat is written at once. -/
theorem heartbeat_awaits {s : Session} (hidle : s.stack = []) (hdepth : s.client.batchDepth = 0) :
    s.host {} (.command .heartbeat [] true) =
      { s with
        client := { s.client with issued := s.client.issued + 1 }
        written := s.written ++
          WireCompatibility.firmwareBytes (heartbeatPacket (s.client.issued + 1))
        writtenCommands := s.writtenCommands ++
          [(s.client.issued + 1, heartbeatPacket (s.client.issued + 1))]
        stack := [{ call := .readResponse (s.client.issued + 1) }] } := by
  have hencode :=
    WireCompatibility.encodePacket_sendable (heartbeatPacket_sendable (s.client.issued + 1))
  rw [heartbeatPacket] at hencode
  simp [Session.host, Session.free, hidle, Session.act, Session.command, issue, hdepth, hencode,
    Session.settle, heartbeatPacket]

/-- A heartbeat that is not answered in time. -/
def timeoutPair : List Input :=
  [.host (.command .heartbeat [] true), .host (.read true 0 (0, 0))]

/-- Idle, with `n` more commands counted and nothing new received. -/
structure Counted (l t : Link) (n : ℕ) : Prop where
  stack : t.session.stack = []
  depth : t.session.client.batchDepth = 0
  issued : t.session.client.issued = l.session.client.issued + n
  decoder : t.session.client.decoder = l.session.client.decoder
  waiting : t.session.waiting = l.session.waiting
  decoded : t.session.decoded = l.session.decoded
  device : t.device = l.device
  origins : t.origins = l.origins

theorem timeoutPair_counted {l : Link} (hidle : l.session.stack = [])
    (hdepth : l.session.client.batchDepth = 0) :
    Counted l (after (Link.step b {}) l timeoutPair) 1 := by
  have hawaits := heartbeat_awaits hidle hdepth
  simp only [timeoutPair, after_cons, after_nil, Link.step, hawaits]
  exact ⟨rfl, hdepth, rfl, rfl, rfl, rfl, rfl, rfl⟩

theorem timeouts_counted {l : Link} (hidle : l.session.stack = [])
    (hdepth : l.session.client.batchDepth = 0) (n : ℕ) :
    Counted l (after (Link.step b {}) l (List.replicate n timeoutPair).flatten) n := by
  induction n generalizing l with
  | zero => exact ⟨hidle, hdepth, rfl, rfl, rfl, rfl, rfl, rfl⟩
  | succ n ih =>
    have hone := timeoutPair_counted (b := b) hidle hdepth
    have hmore := ih hone.stack hone.depth
    rw [List.replicate_succ, List.flatten_cons, after_append]
    exact
      { stack := hmore.stack
        depth := hmore.depth
        issued := by rw [hmore.issued, hone.issued]; omega
        decoder := hmore.decoder.trans hone.decoder
        waiting := hmore.waiting.trans hone.waiting
        decoded := hmore.decoded.trans hone.decoded
        device := hmore.device.trans hone.device
        origins := hmore.origins.trans hone.origins }

/-- Digital pin 2 is subscribed at 10 Hz. -/
def subscribed : List Input :=
  [.host (.command .subscribe [1, 2, 10, 0, 0] true)] ++
    List.replicate 15 (.byte (FirmwareDevice.envAt 0)) ++
    [.host (.read false 0 (1, 4096)), .host .next]

/-- After the subscription `n` heartbeats time out; then telemetry is written while the next
one is waiting. -/
def timedOut (n : ℕ) : List Input := subscribed ++ (List.replicate n timeoutPair).flatten

def longSession (n : ℕ) : List Input :=
  timedOut n ++ [.host (.command .heartbeat [] true), .update (FirmwareDevice.envAt 1000),
    .host (.read false 0 (1, 4096))]

def telemetryPacket : Packet := ⟨.telemetry, 0, [1, 2, 0, 0, 0, 0]⟩

/-- What is left of the first part of the run. -/
theorem subscribed_after :
    let l := after (Link.step FirmwareDevice.sampleBoard {}) {} subscribed
    l.session.stack = [] ∧ l.session.client.batchDepth = 0 ∧ l.session.client.issued = 1 ∧
      l.session.client.decoder = {} ∧ l.session.waiting = [] ∧ l.session.decoded = 1 ∧
      l.origins = [.response 1] ∧
      framesWritten (FirmwareUpdate.update FirmwareDevice.sampleBoard (FirmwareDevice.envAt 1000)
        l.device).2 = [⟨.telemetry, 0, [1, 2, 0, 0, 0, 0]⟩] := by
  decide +kernel

/-- A read that finds exactly one frame. -/
theorem read_one {s : Session} {number : ℕ} {p : Packet}
    (hstack : s.stack = [⟨.readResponse number, .looking⟩]) (hne : s.waiting ≠ [])
    (hread : readSome s.waiting 4096 (1, 4096) = s.waiting)
    (hfeed : s.client.decoder.feed s.waiting = (.ok [p], {})) :
    (s.host {} (.read false 0 (1, 4096))).stack =
        [⟨.readResponse number, .delivering [(p, s.decoded)] false⟩] ∧
      (s.host {} (.read false 0 (1, 4096))).client.issued = s.client.issued := by
  have hlook : s.host {} (.read false 0 (1, 4096)) =
      s.ingest (.readResponse number) [] s.waiting := by
    simp [Session.host, hstack, Session.look, hread]
  rw [hlook, Session.ingest, if_neg hne, hfeed]
  exact ⟨rfl, rfl⟩

theorem update_writes {l : Link} {env : Env} {w : Written}
    (hwrites : framesWritten (FirmwareUpdate.update b env l.device).2 = [w]) :
    l.step b {} (.update env) =
      { l with device := (FirmwareUpdate.update b env l.device).1 }.write .unsolicited w := by
  simp only [Link.step, hwrites]
  rfl

theorem deliver_decoded (s : Session) (call : Call) (below : List Activity)
    (packets : List Arrival) : (s.deliver o call below packets).decoded = s.decoded := by
  cases packets with
  | nil =>
    cases call with
    | readResponse number => rfl
    | pollAsyncPackets timed budget drained =>
      simp only [Session.deliver, Session.exhaust]
      split_ifs <;> rfl
  | cons arrival rest =>
    simp only [Session.deliver]
    split_ifs
    · cases call <;> rfl
    · rfl

theorem next_decoded (s : Session) : (s.host o .next).decoded = s.decoded := by
  unfold Session.host
  split
  · rename_i heq _
    cases heq
  · exact deliver_decoded s _ _ _
  · split_ifs <;> rfl

/-- A step that decodes nothing is timely. -/
theorem timely_of_decoded {l : Link} {i : Input}
    (h : (l.step b o i).session.decoded = l.session.decoded) : Timely b o l i := by
  intro place number _ hge hlt
  omega

/-- Telemetry is written and read while a call waits. -/
theorem telemetry_met {l : Link} (env : Env) (number : ℕ)
    (hstack : l.session.stack = [⟨.readResponse number, .looking⟩])
    (hdecoder : l.session.client.decoder = {}) (hwaiting : l.session.waiting = [])
    (hplaces : l.origins.length = l.session.decoded)
    (hwrites : framesWritten (FirmwareUpdate.update b env l.device).2 =
      [⟨.telemetry, 0, [1, 2, 0, 0, 0, 0]⟩]) :
    let inputs : List Input := [.update env, .host (.read false 0 (1, 4096))]
    let t := after (Link.step b {}) l inputs
    t.session.stack = [⟨.readResponse number,
        .delivering [(telemetryPacket, l.session.decoded)] false⟩] ∧
      t.origins = l.origins ++ [.unsolicited] ∧
      t.session.client.issued = l.session.client.issued ∧
      EachStep (Link.step b {}) (Timely b {}) l inputs := by
  have hbytes : l.session.waiting ++ WireCompatibility.firmwareBytes telemetryPacket =
      WireCompatibility.firmwareBytes telemetryPacket := by rw [hwaiting, List.nil_append]
  have hread : readSome (WireCompatibility.firmwareBytes telemetryPacket) 4096 (1, 4096) =
      WireCompatibility.firmwareBytes telemetryPacket := by decide +kernel
  have hfeed : PacketDecoder.feed {} (WireCompatibility.firmwareBytes telemetryPacket) =
      (.ok [telemetryPacket], {}) := by decide +kernel
  have hne : WireCompatibility.firmwareBytes telemetryPacket ≠ [] := by decide +kernel
  have hdecode : l.session.client.decoder.feed (WireCompatibility.firmwareBytes telemetryPacket) =
      (.ok [telemetryPacket], {}) := by rw [hdecoder, hfeed]
  rw [← hbytes] at hread hdecode hne
  have hupdate := update_writes hwrites
  simp only [after_cons, after_nil, EachStep, hupdate]
  obtain ⟨hloop, hissued⟩ :=
    read_one (s := l.session.send telemetryPacket) hstack hne hread hdecode
  refine ⟨hloop, rfl, hissued, timely_of_decoded (by rw [hupdate]; rfl), ?_, trivial⟩
  intro place answered horigin hge _
  change (l.origins ++ [Origin.unsolicited])[place]? = _ at horigin
  rw [List.getElem?_append_right (hplaces.trans_le hge)] at horigin
  cases List.mem_singleton.mp (List.mem_of_getElem? horigin)

/-- How the run stands when the last command meets the telemetry frame. -/
theorem longSession_after {n : ℕ} (hn : n + 2 = 65536) :
    let before := after (Link.step FirmwareDevice.sampleBoard {}) {} (longSession n)
    before.session.client.issued = 65536 ∧
      before.session.stack =
        [⟨.readResponse 65536, .delivering [(telemetryPacket, 1)] false⟩] ∧
      before.origins = [.response 1, .unsolicited] ∧
      EachStep (Link.step FirmwareDevice.sampleBoard {}) (Timely FirmwareDevice.sampleBoard {}) {}
        (longSession n) := by
  intro before
  obtain ⟨hidle, hdepth, hissued, hdecoder, hwaiting, hdecoded, horigins, hwrites⟩ :=
    subscribed_after
  have hcounted := timeouts_counted (b := FirmwareDevice.sampleBoard) hidle hdepth n
  rw [← after_append, ← timedOut] at hcounted
  have hcount : (after (Link.step FirmwareDevice.sampleBoard {}) {}
      (timedOut n)).session.client.issued + 1 = 65536 := by
    rw [hcounted.issued, hissued]
    omega
  have hfew : EachStep (Link.step FirmwareDevice.sampleBoard {})
      (Timely FirmwareDevice.sampleBoard {}) {} (timedOut n) := timely_of_few (by omega)
  have hbefore : before = after (Link.step FirmwareDevice.sampleBoard {})
      (after (Link.step FirmwareDevice.sampleBoard {}) {} (timedOut n)) _ := after_append ..
  have hrun : EachStep (Link.step FirmwareDevice.sampleBoard {})
      (Timely FirmwareDevice.sampleBoard {}) {} (timedOut n ++
        [.host (.command .heartbeat [] true), .update (FirmwareDevice.envAt 1000),
          .host (.read false 0 (1, 4096))]) ↔ _ := eachStep_append ..
  generalize after (Link.step FirmwareDevice.sampleBoard {}) {} (timedOut n) = l at *
  have hm : (l.step FirmwareDevice.sampleBoard {} (.host (.command .heartbeat [] true))).session =
      _ := heartbeat_awaits hcounted.stack hcounted.depth
  obtain ⟨hstack, hwritten, hnumber, htimely⟩ :=
    telemetry_met (b := FirmwareDevice.sampleBoard)
      (l := l.step FirmwareDevice.sampleBoard {} (.host (.command .heartbeat [] true)))
      (FirmwareDevice.envAt 1000) 65536 (by rw [hm, hcount])
      (by rw [hm]; exact hcounted.decoder.trans hdecoder)
      (by rw [hm]; exact hcounted.waiting.trans hwaiting)
      (by
        rw [hm]
        change l.origins.length = l.session.decoded
        rw [hcounted.origins, hcounted.decoded, horigins, hdecoded]
        rfl)
      (by
        change framesWritten (FirmwareUpdate.update _ _ l.device).2 = _
        rw [hcounted.device]
        exact hwrites)
  rw [after_cons] at hbefore
  rw [← hbefore] at hstack hwritten hnumber
  refine ⟨?_, ?_, ?_, hrun.mpr ⟨hfew, timely_of_decoded (by rw [hm]), htimely⟩⟩
  · rw [hnumber, hm, hcount]
  · rw [hstack, hm, hcounted.decoded, hdecoded]
  · change before.origins = l.origins ++ [.unsolicited] at hwritten
    rw [hwritten, hcounted.origins, horigins]
    rfl

theorem telemetry_taken {inputs : List Input}
    (hstack : (after (Link.step FirmwareDevice.sampleBoard {}) {} inputs).session.stack =
        [⟨.readResponse 65536, .delivering [(telemetryPacket, 1)] false⟩])
    (horigins : (after (Link.step FirmwareDevice.sampleBoard {}) {} inputs).origins =
      [.response 1, .unsolicited])
    (htimely : EachStep (Link.step FirmwareDevice.sampleBoard {})
      (Timely FirmwareDevice.sampleBoard {}) {} inputs) :
      EachStep (Link.step FirmwareDevice.sampleBoard {}) (Timely FirmwareDevice.sampleBoard {}) {}
        (inputs ++ [.host .next]) ∧
      ¬ EachStep (Link.step FirmwareDevice.sampleBoard {}) OwnResponse {}
        (inputs ++ [.host .next]) := by
  have hreturns : (Call.readResponse 65536).returns telemetryPacket = true := by decide +kernel
  have hrun : ∀ G : Link → Input → Prop,
      EachStep (Link.step FirmwareDevice.sampleBoard {}) G {} (inputs ++ [.host .next]) ↔ _ :=
    fun G => eachStep_append ..
  rw [hrun, hrun]
  generalize after (Link.step FirmwareDevice.sampleBoard {}) {} inputs = l at *
  refine ⟨⟨htimely, timely_of_decoded (next_decoded l.session), trivial⟩, fun hown => ?_⟩
  have hlast := hown.2.1
  simp only [OwnResponse, hstack] at hlast
  have hwrong := (hlast hreturns).1
  rw [horigins] at hwrong
  simp at hwrong

/-- The 65536th command takes the telemetry frame for its response, and no response is late. -/
theorem command_65536_takes_telemetry :
    (after (Link.step FirmwareDevice.sampleBoard {}) {} (longSession 65534)).session.stack =
        [⟨.readResponse 65536, .delivering [(telemetryPacket, 1)] false⟩] ∧
      EachStep (Link.step FirmwareDevice.sampleBoard {}) (Timely FirmwareDevice.sampleBoard {}) {}
        (longSession 65534 ++ [.host .next]) ∧
      ¬ EachStep (Link.step FirmwareDevice.sampleBoard {}) OwnResponse {}
        (longSession 65534 ++ [.host .next]) := by
  obtain ⟨-, hstack, horigins, htimely⟩ := longSession_after (n := 65534) (by norm_num)
  exact ⟨hstack, telemetry_taken hstack horigins htimely⟩

end ResponseCorrelation
