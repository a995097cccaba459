import TeensyIo.DecoderStreams
import TeensyIo.HostClient
import TeensyIo.PassLoops

/-! # Polling within a budget

`_poll_async_packets` and `_read_some` on one thread. The transport may have any number of bytes
at any time, and the clock stands where it likes. -/
namespace PollBudgets

open HostProtocol HostClient PassLoops
open FirmwareProtocol (crc16Ccitt)
open WireCompatibility (Known feedAll feed_eq)
open FramingRecovery (framesIn)

universe u

/-- What callbacks leave when they have returned. They may poll themselves: `polled` is what
they have read and fed so. -/
structure Called (ω : Type u) where
  state : ω
  client : Client
  polled : List (List UInt8) := []

/-- What a poll calls: the transport, the clock, and the callbacks registered for the frame of a
packet. No read returns more than it is asked for, and the callbacks return without a command,
so that they change the decoder by feeding it only. -/
structure Surroundings (ω : Type u) where
  read : ω → ℤ → List UInt8 × ω
  readAvailable : ω → ℤ → List UInt8 × ω
  monotonic : ω → ℚ × ω
  callbacks : ω → Client → Packet → Called ω
  read_le : ∀ s n, 1 ≤ n → ((read s n).1.length : ℤ) ≤ n
  readAvailable_le : ∀ s n, 1 ≤ n → ((readAvailable s n).1.length : ℤ) ≤ n
  callbacks_feed : ∀ s c packet, ∃ packets,
    feedAll c.decoder (callbacks s c packet).polled =
      some (packets, (callbacks s c packet).client.decoder)

inductive Route where
  | read | readAvailable
  deriving DecidableEq, Repr

/-- A call of the transport, with the size it was given and the bytes it returned. -/
structure Read where
  route : Route
  size : ℤ
  data : List UInt8
  deriving DecidableEq, Repr

/-- The locals of a poll and what they act on, its reads so far and what it has fed. `taken` and
`decoded` are what has been read and fed since the poll began, by polls of callbacks included. -/
structure Poll (ω : Type u) where
  state : ω
  client : Client
  drained : ℤ := 0
  reads : List Read := []
  fed : List (List UInt8) := []
  taken : List UInt8 := []
  decoded : List (List UInt8) := []

namespace Poll

variable {ω : Type u} (w : Surroundings ω)

/-- Every byte the poll itself has read, in order. -/
def bytesRead (p : Poll ω) : List UInt8 := p.reads.flatMap Read.data

/-- The transport has returned the data. -/
def take (p : Poll ω) (route : Route) (size : ℤ) (data : List UInt8) (state : ω) : Poll ω :=
  { p with state, reads := p.reads ++ [⟨route, size, data⟩], taken := p.taken ++ data }

def read (p : Poll ω) (size : ℤ) : List UInt8 × Poll ω :=
  let (data, state) := w.read p.state size
  (data, p.take .read size data state)

def readAvailable (p : Poll ω) (size : ℤ) : List UInt8 × Poll ω :=
  let (data, state) := w.readAvailable p.state size
  (data, p.take .readAvailable size data state)

def monotonic (p : Poll ω) : ℚ × Poll ω :=
  let (now, state) := w.monotonic p.state
  (now, { p with state })

/-- `_read_some(blocking=True, max_bytes=limit)`. -/
def readSome (p : Poll ω) (limit : ℤ) : List UInt8 × Poll ω :=
  let (first, p) := p.read w 1
  if first = [] ∨ limit ≤ first.length then (first, p)
  else
    let (rest, p) := p.readAvailable w (limit - first.length)
    (first ++ rest, p)

def handleAsyncPacket (o : Options) (p : Poll ω) (packet : Packet) : Poll ω :=
  let client := HostClient.handleAsyncPacket o p.client packet
  if wanted packet then
    let called := w.callbacks p.state client packet
    { p with
      state := called.state
      client := called.client
      taken := p.taken ++ called.polled.flatten
      decoded := p.decoded ++ called.polled }
  else { p with client }

def feed (p : Poll ω) (data : List UInt8) : Except PyError (List Packet) × Poll ω :=
  let (result, decoder) := p.client.decoder.feed data
  (result,
    { p with
      client := { p.client with decoder }
      fed := p.fed ++ [data]
      decoded := p.decoded ++ [data] })

/-- The end of a poll: what it returns or raises. -/
abbrev End (ω : Type u) := Except PyError ℤ × Poll ω

/-- What follows on a read that found something. -/
def drain (o : Options) (budget : ℤ) (p : Poll ω) (data : List UInt8) :
    Pass (Poll ω) (End ω) :=
  let (result, p) := { p with drained := p.drained + data.length }.feed data
  match result with
  | .error error => .leave (.error error, p)
  | .ok packets =>
    let p := packets.foldl (handleAsyncPacket w o) p
    if budget ≤ p.drained then .leave (.ok p.drained, p) else .again p

/-- `min(self.read_chunk_size, max(1, budget - drained))`. -/
def limit (o : Options) (budget : ℤ) (p : Poll ω) : ℤ :=
  min o.readChunkSize (max 1 (budget - p.drained))

/-- A pass of `while True`. -/
def pass (o : Options) (timeout deadline : ℚ) (budget : ℤ) (p : Poll ω) :
    Pass (Poll ω) (End ω) :=
  let (data, p) := p.readAvailable w (p.limit o budget)
  if data ≠ [] then p.drain w o budget data
  else if timeout ≤ 0 then .leave (.ok p.drained, p)
  else
    let (now, p) := p.monotonic w
    if deadline ≤ now then .leave (.ok p.drained, p)
    else
      let (data, p) := p.readSome w (p.limit o budget)
      if data ≠ [] then p.drain w o budget data else .again p

end Poll

/-- `budget`. -/
def drainBudget (o : Options) (maxBytes : Option ℤ) : ℤ := maxBytes.getD o.readDrainMaxBytes

section Start

variable {ω : Type u} (o : Options) (w : Surroundings ω) (timeout : ℚ) (maxBytes : Option ℤ)
  (s : ω) (c : Client)

def start : Poll ω := { state := (w.monotonic s).2, client := c }

/-- The loop after the deadline has been computed. -/
def pollPass : Poll ω → Pass (Poll ω) (Poll.End ω) :=
  Poll.pass w o timeout ((w.monotonic s).1 + timeout) (drainBudget o maxBytes)

/-- `_poll_async_packets` with a bound on the passes of its loop. -/
def pollAsyncPackets (passes : ℕ) : Option (Poll.End ω) :=
  runFor (pollPass o w timeout maxBytes s) passes (start w s c)

end Start

/-! ### What a read does -/

section Reads

variable {ω : Type u} {p q q' : Poll ω} {data more : List UInt8}

/-- Between the two the transport has returned the data, and nothing else has happened. -/
structure Reads (p q : Poll ω) (data : List UInt8) : Prop where
  bytes : q.bytesRead = p.bytesRead ++ data
  taken : q.taken = p.taken ++ data
  client : q.client = p.client
  drained : q.drained = p.drained
  fed : q.fed = p.fed
  decoded : q.decoded = p.decoded

theorem Reads.trans (h : Reads p q data) (hmore : Reads q q' more) :
    Reads p q' (data ++ more) := by
  constructor
  · rw [hmore.bytes, h.bytes, List.append_assoc]
  · rw [hmore.taken, h.taken, List.append_assoc]
  · exact hmore.client.trans h.client
  · exact hmore.drained.trans h.drained
  · exact hmore.fed.trans h.fed
  · exact hmore.decoded.trans h.decoded

theorem Reads.limit (h : Reads p q data) (o : Options) (budget : ℤ) :
    q.limit o budget = p.limit o budget := by
  rw [Poll.limit, h.drained, Poll.limit]

variable (w : Surroundings ω) (p)

theorem take_reads (route : Route) (size : ℤ) (state : ω) :
    Reads p (p.take route size data state) data := by
  refine ⟨?_, rfl, rfl, rfl, rfl, rfl⟩
  simp [Poll.bytesRead, Poll.take]

theorem read_reads (size : ℤ) : Reads p (p.read w size).2 (p.read w size).1 :=
  take_reads p .read size _

theorem readAvailable_reads (size : ℤ) :
    Reads p (p.readAvailable w size).2 (p.readAvailable w size).1 :=
  take_reads p .readAvailable size _

theorem monotonic_reads : Reads p (p.monotonic w).2 [] :=
  ⟨(List.append_nil _).symm, (List.append_nil _).symm, rfl, rfl, rfl, rfl⟩

/-- The two parts together are what was read, and no more than the limit. -/
theorem readSome_reads {limit : ℤ} (hlimit : 1 ≤ limit) :
    Reads p (p.readSome w limit).2 (p.readSome w limit).1 ∧
      ((p.readSome w limit).1.length : ℤ) ≤ limit := by
  have hfirst := read_reads p w 1
  have hone : ((p.read w 1).1.length : ℤ) ≤ 1 := w.read_le p.state 1 le_rfl
  unfold Poll.readSome
  dsimp only
  split_ifs with hstop
  · exact ⟨hfirst, hone.trans hlimit⟩
  · have hroom : 1 ≤ limit - (p.read w 1).1.length := by
      have hshort : ¬ limit ≤ (p.read w 1).1.length := fun h => hstop (Or.inr h)
      omega
    have hrest := w.readAvailable_le (p.read w 1).2.state _ hroom
    refine ⟨hfirst.trans (readAvailable_reads _ w _), ?_⟩
    rw [List.length_append, Nat.cast_add]
    have hsame : ((p.read w 1).2.readAvailable w (limit - (p.read w 1).1.length)).1 =
        (w.readAvailable (p.read w 1).2.state (limit - (p.read w 1).1.length)).1 := rfl
    rw [hsame]
    omega

/-- While there is a budget left, a read is for at least one byte and at most what is left. -/
theorem limit_bounds {o : Options} {budget : ℤ} (hchunk : 1 ≤ o.readChunkSize)
    (hbelow : p.drained < budget) :
    1 ≤ p.limit o budget ∧ p.limit o budget ≤ budget - p.drained := by
  rw [Poll.limit]
  omega

end Reads

/-! ### Feeds one after the other -/

theorem feedAll_first {decoder after : PacketDecoder} {chunk : List UInt8}
    {chunks : List (List UInt8)} {ps : List Packet}
    (h : feedAll decoder (chunk :: chunks) = some (ps, after)) :
    ∃ now later next, decoder.feed chunk = (.ok now, next) ∧
      feedAll next chunks = some (later, after) ∧ ps = now ++ later := by
  rw [feedAll] at h
  split at h
  · cases h
  · next now next hnow =>
    obtain ⟨⟨later, end'⟩, hlater, hpair⟩ := Option.map_eq_some_iff.mp h
    cases hpair
    exact ⟨now, later, next, hnow, hlater, rfl⟩

theorem feedAll_append {decoder middle after : PacketDecoder} {chunks more : List (List UInt8)}
    {ps packets : List Packet} (h : feedAll decoder chunks = some (ps, middle))
    (hmore : feedAll middle more = some (packets, after)) :
    feedAll decoder (chunks ++ more) = some (ps ++ packets, after) := by
  induction chunks generalizing decoder ps with
  | nil =>
    cases h
    exact hmore
  | cons chunk chunks ih =>
    obtain ⟨now, later, next, hnow, hlater, rfl⟩ := feedAll_first h
    rw [List.cons_append, feedAll, hnow]
    dsimp only
    rw [ih hlater, Option.map_some, List.append_assoc]

theorem feedAll_singleton {decoder after : PacketDecoder} {data : List UInt8}
    {packets : List Packet} (h : decoder.feed data = (.ok packets, after)) :
    feedAll decoder [data] = some (packets, after) := by
  rw [feedAll, h]
  show some (packets ++ [], after) = some (packets, after)
  rw [List.append_nil]

/-- The frames a decoder still meets are among those of everything it is given. -/
theorem feedAll_known {decoder after : PacketDecoder} {chunks : List (List UInt8)}
    {packets : List Packet} {data : List UInt8}
    (h : feedAll decoder chunks = some (packets, after))
    (hknown : ∀ f ∈ framesIn (decoder.buffer ++ (chunks.flatten ++ data)), Known f) :
    ∀ f ∈ framesIn (after.buffer ++ data), Known f := by
  induction chunks generalizing decoder packets with
  | nil =>
    cases h
    exact hknown
  | cons chunk chunks ih =>
    obtain ⟨now, later, next, hnow, hlater, -⟩ := feedAll_first h
    apply ih hlater
    have hfirst := feed_eq decoder chunk (DecoderStreams.known_of_feed hnow)
    rw [hnow] at hfirst
    obtain rfl := (Prod.mk.inj hfirst).2
    intro f hf
    apply hknown
    have hsplit := StreamScanner.scan_append (WireFrame.hostAttempt_lawful crc16Ccitt)
      (decoder.buffer ++ chunk) (chunks.flatten ++ data) 0 (Nat.zero_le _)
    rw [List.flatten_cons, List.append_assoc, ← List.append_assoc, framesIn, hsplit]
    exact List.mem_append_right _ hf

/-! ### What becomes of the bytes -/

section Drains

variable {ω : Type u} (o : Options) (w : Surroundings ω) (budget : ℤ)

/-- The decoder has been given the data and perhaps, by callbacks, more, and has returned. -/
structure Fed (p q : Poll ω) (data : List UInt8) : Prop where
  reads : q.reads = p.reads
  drained : q.drained = p.drained + data.length
  fed : q.fed = p.fed ++ [data]
  decoder : ∃ polled packets, q.taken = p.taken ++ polled.flatten ∧
    q.decoded = p.decoded ++ data :: polled ∧
    feedAll p.client.decoder (data :: polled) = some (packets, q.client.decoder)

theorem handle_keeps (p : Poll ω) (packet : Packet) :
    let q := p.handleAsyncPacket w o packet
    q.reads = p.reads ∧ q.drained = p.drained ∧ q.fed = p.fed ∧
      ∃ polled packets, q.taken = p.taken ++ polled.flatten ∧ q.decoded = p.decoded ++ polled ∧
        feedAll p.client.decoder polled = some (packets, q.client.decoder) := by
  have hdecoder := handleAsyncPacket_decoder o p.client packet
  dsimp only
  unfold Poll.handleAsyncPacket
  dsimp only
  split_ifs
  · obtain ⟨packets, hpackets⟩ := w.callbacks_feed p.state
      (HostClient.handleAsyncPacket o p.client packet) packet
    rw [hdecoder] at hpackets
    exact ⟨rfl, rfl, rfl, _, packets, rfl, rfl, hpackets⟩
  · refine ⟨rfl, rfl, rfl, [], [], (List.append_nil _).symm, (List.append_nil _).symm, ?_⟩
    rw [hdecoder]
    rfl

theorem Fed.handled {p q : Poll ω} {data : List UInt8} (h : Fed p q data)
    (packets : List Packet) : Fed p (packets.foldl (Poll.handleAsyncPacket w o) q) data := by
  induction packets generalizing q with
  | nil => exact h
  | cons packet packets ih =>
    obtain ⟨hreads, hdrained, hfed, more, found, htaken, hmore, hfound⟩ :=
      handle_keeps o w q packet
    obtain ⟨polled, ps, hbefore, hpolled, hps⟩ := h.decoder
    apply ih
    constructor
    · exact hreads.trans h.reads
    · exact hdrained.trans h.drained
    · exact hfed.trans h.fed
    · refine ⟨polled ++ more, ps ++ found, ?_, ?_, feedAll_append hps hfound⟩
      · rw [htaken, hbefore, List.flatten_append, List.append_assoc]
      · rw [hmore, hpolled, List.append_assoc, List.cons_append]

/-- The ways in which a pass that has read something can end. -/
inductive Drains (p : Poll ω) (data : List UInt8) : Pass (Poll ω) (Poll.End ω) → Prop where
  | raised {q error} : q.reads = p.reads → q.taken = p.taken → q.fed = p.fed ++ [data] →
      q.decoded = p.decoded ++ [data] → (p.client.decoder.feed data).1 = .error error →
      Drains p data (.leave (.error error, q))
  | spent {q} : Fed p q data → budget ≤ q.drained → Drains p data (.leave (.ok q.drained, q))
  | more {q} : Fed p q data → q.drained < budget → Drains p data (.again q)

theorem drain_drains (p : Poll ω) (data : List UInt8) :
    Drains budget p data (p.drain w o budget data) := by
  unfold Poll.drain Poll.feed
  dsimp only
  cases hresult : (p.client.decoder.feed data).1 with
  | error error => exact .raised rfl rfl rfl rfl hresult
  | ok packets =>
    have hfed : Fed p
        { p with
          client := { p.client with decoder := (p.client.decoder.feed data).2 }
          drained := p.drained + data.length
          fed := p.fed ++ [data]
          decoded := p.decoded ++ [data] } data := by
      refine ⟨rfl, rfl, rfl, [], packets, (List.append_nil _).symm, rfl, feedAll_singleton ?_⟩
      rw [← hresult]
    have hhandled := hfed.handled o w packets
    dsimp only
    split_ifs with hspent
    · exact .spent hhandled hspent
    · exact .more hhandled (by omega)

variable {o w budget} in
theorem drain_grows {p q : Poll ω} {data : List UInt8} (hdata : data ≠ [])
    (hagain : p.drain w o budget data = .again q) : p.drained < q.drained := by
  have hdrains := drain_drains o w budget p data
  have hpos := List.length_pos_of_ne_nil hdata
  rw [hagain] at hdrains
  cases hdrains with
  | more hfed hbelow =>
    rw [hfed.drained]
    omega

end Drains

/-! ### What a pass does -/

section Turns

variable {ω : Type u} (o : Options) (w : Surroundings ω) (timeout deadline : ℚ) (budget : ℤ)

/-- The ways in which a pass goes. -/
inductive Turns (p : Poll ω) : Pass (Poll ω) (Poll.End ω) → Prop where
  | drains {q data} : Reads p q data → data ≠ [] → (data.length : ℤ) ≤ p.limit o budget →
      Turns p (q.drain w o budget data)
  | quits {q} : Reads p q [] → Turns p (.leave (.ok q.drained, q))
  | waits {q} : 0 < timeout → Reads p q [] → Turns p (.again q)

theorem pass_turns (p : Poll ω) (hlimit : 1 ≤ p.limit o budget) :
    Turns o w timeout budget p (p.pass w o timeout deadline budget) := by
  have hreads := readAvailable_reads p w (p.limit o budget)
  have hlength := w.readAvailable_le p.state _ hlimit
  unfold Poll.pass
  dsimp only
  by_cases hdata : (p.readAvailable w (p.limit o budget)).1 = []
  · rw [if_neg (not_not.mpr hdata)]
    rw [hdata] at hreads
    by_cases htimeout : timeout ≤ 0
    · rw [if_pos htimeout]
      exact .quits hreads
    rw [if_neg htimeout]
    have hclock := hreads.trans (monotonic_reads _ w)
    rw [List.append_nil] at hclock
    split_ifs with hexpired hmore
    · exact .quits hclock
    · rw [hclock.limit] at hmore ⊢
      obtain ⟨hsome, hlength⟩ := readSome_reads ((p.readAvailable w _).2.monotonic w).2 w hlimit
      exact .drains (hclock.trans hsome) hmore hlength
    · rw [hclock.limit] at hmore ⊢
      obtain ⟨hsome, -⟩ := readSome_reads ((p.readAvailable w _).2.monotonic w).2 w hlimit
      rw [not_not.mp hmore] at hsome
      exact .waits (not_le.mp htimeout) (hclock.trans hsome)
  · rw [if_pos hdata]
    exact .drains hreads hdata hlength

variable {o w timeout deadline budget} in
theorem pass_grows {p q : Poll ω} (hlimit : 1 ≤ p.limit o budget)
    (hagain : p.pass w o timeout deadline budget = .again q) : p.drained ≤ q.drained := by
  have hturns := pass_turns o w timeout deadline budget p hlimit
  rw [hagain] at hturns
  generalize hended : Pass.again q = ended at hturns
  cases hturns with
  | drains hreads hdata hlength =>
    have hgrows := drain_grows hdata hended.symm
    rw [hreads.drained] at hgrows
    exact hgrows.le
  | quits hreads => cases hended
  | waits htimeout hreads =>
    cases hended
    exact hreads.drained.ge

end Turns

/-! ### The account of a poll -/

section Account

variable {ω : Type u} {o : Options} {w : Surroundings ω} {budget : ℤ} {c : Client}

/-- Everything read has been fed, in order, but for what the poll still holds. -/
structure Account (c : Client) (p : Poll ω) (held : List UInt8) : Prop where
  bytes : p.bytesRead = p.fed.flatten ++ held
  taken : p.taken = p.decoded.flatten ++ held
  drained : p.drained = p.fed.flatten.length
  decoder : ∃ packets, feedAll c.decoder p.decoded = some (packets, p.client.decoder)

theorem Account.reads {p q : Poll ω} {data : List UInt8} (h : Account c p [])
    (hreads : Reads p q data) : Account c q data := by
  constructor
  · rw [hreads.bytes, h.bytes, List.append_nil, hreads.fed]
  · rw [hreads.taken, h.taken, List.append_nil, hreads.decoded]
  · rw [hreads.drained, hreads.fed]
    exact h.drained
  · rw [hreads.client, hreads.decoded]
    exact h.decoder

theorem Account.fed {p q : Poll ω} {data : List UInt8} (h : Account c p data)
    (hfed : Fed p q data) : Account c q [] := by
  obtain ⟨polled, packets, htaken, hdecoded, hpackets⟩ := hfed.decoder
  constructor
  · rw [Poll.bytesRead, hfed.reads, hfed.fed, List.flatten_append, List.flatten_singleton,
      List.append_nil]
    exact h.bytes
  · rw [htaken, h.taken, hdecoded, List.flatten_append, List.flatten_cons, List.append_nil,
      List.append_assoc]
  · rw [hfed.drained, hfed.fed, List.flatten_append, List.flatten_singleton, List.length_append,
      h.drained, Nat.cast_add]
  · obtain ⟨before, hbefore⟩ := h.decoder
    rw [hdecoded]
    exact ⟨before ++ packets, feedAll_append hbefore hpackets⟩

/-- At the head of the loop. -/
structure Head (budget : ℤ) (c : Client) (p : Poll ω) : Prop where
  account : Account c p []
  below : p.drained < budget

/-- How a poll ends: it has read no more than its budget and has fed what it has read, and it
returns how much that was, unless the decoder has met a frame of a foreign type. -/
structure Finished (budget : ℤ) (c : Client) (r : Poll.End ω) : Prop where
  within : (r.2.bytesRead.length : ℤ) ≤ budget
  fed : r.2.fed.flatten = r.2.bytesRead
  order : r.2.decoded.flatten = r.2.taken
  counted : ∀ n, r.1 = .ok n → n = r.2.bytesRead.length
  returns : (∀ f ∈ framesIn (c.decoder.buffer ++ r.2.taken), Known f) → ∃ n, r.1 = .ok n

def Good (budget : ℤ) (c : Client) : Pass (Poll ω) (Poll.End ω) → Prop
  | .again q => Head budget c q
  | .leave r => Finished budget c r

theorem Account.finished {p : Poll ω} (h : Account c p []) (hle : p.drained ≤ budget) :
    Finished budget c (.ok p.drained, p) := by
  have hbytes : p.bytesRead = p.fed.flatten := by
    rw [h.bytes, List.append_nil]
  constructor
  · show (p.bytesRead.length : ℤ) ≤ budget
    rw [hbytes, ← h.drained]
    exact hle
  · exact hbytes.symm
  · show p.decoded.flatten = p.taken
    rw [h.taken, List.append_nil]
  · intro n hn
    cases hn
    rw [h.drained, ← hbytes]
  · intro _
    exact ⟨p.drained, rfl⟩

theorem drain_good {p : Poll ω} {data : List UInt8} (h : Account c p data)
    (hroom : p.drained + data.length ≤ budget) : Good budget c (p.drain w o budget data) := by
  have hdrains := drain_drains o w budget p data
  generalize p.drain w o budget data = ended at hdrains
  cases hdrains with
  | @raised q error hreads htaken hfed hdecoded herror =>
    have hbytes : q.bytesRead = p.fed.flatten ++ data := by
      rw [Poll.bytesRead, hreads]
      exact h.bytes
    constructor
    · rw [hbytes, List.length_append, Nat.cast_add, ← h.drained]
      exact hroom
    · rw [hbytes, hfed, List.flatten_append, List.flatten_singleton]
    · rw [hdecoded, List.flatten_append, List.flatten_singleton, htaken, h.taken]
    · intro n hn
      cases hn
    · intro hknown
      rw [htaken, h.taken] at hknown
      obtain ⟨ps, hps⟩ := h.decoder
      rw [feed_eq p.client.decoder data (feedAll_known hps hknown)] at herror
      cases herror
  | spent hfed hspent =>
    apply (h.fed hfed).finished
    rw [hfed.drained]
    exact hroom
  | more hfed hbelow => exact ⟨h.fed hfed, hbelow⟩

variable {timeout deadline : ℚ}

theorem pass_good (hchunk : 1 ≤ o.readChunkSize) {p : Poll ω} (h : Head budget c p) :
    Good budget c (p.pass w o timeout deadline budget) := by
  obtain ⟨hone, hleft⟩ := limit_bounds p hchunk h.below
  have hturns := pass_turns o w timeout deadline budget p hone
  generalize p.pass w o timeout deadline budget = ended at hturns
  cases hturns with
  | drains hreads hdata hlength =>
    apply drain_good (h.account.reads hreads)
    rw [hreads.drained]
    omega
  | quits hreads =>
    apply (h.account.reads hreads).finished
    rw [hreads.drained]
    exact h.below.le
  | waits htimeout hreads =>
    refine ⟨h.account.reads hreads, ?_⟩
    rw [hreads.drained]
    exact h.below

end Account

/-! ### A poll that does not wait -/

section AtOnce

variable {ω : Type u} (o : Options) (w : Surroundings ω) (deadline : ℚ) {timeout : ℚ}
  (budget : ℤ)

/-- The ways in which a pass goes: it reads once and goes on only with something it has read. -/
inductive AtOnce (p : Poll ω) : Pass (Poll ω) (Poll.End ω) → Prop where
  | more {q size data} : q.reads = p.reads ++ [⟨.readAvailable, size, data⟩] → data ≠ [] →
      p.drained < q.drained → AtOnce p (.again q)
  | ends {q size data result} : q.reads = p.reads ++ [⟨.readAvailable, size, data⟩] →
      (∀ n, result = .ok n → budget ≤ n ∨ data = []) → AtOnce p (.leave (result, q))

theorem pass_atOnce (htimeout : timeout ≤ 0) (p : Poll ω) :
    AtOnce budget p (p.pass w o timeout deadline budget) := by
  unfold Poll.pass
  dsimp only
  rw [if_pos htimeout]
  by_cases hdata : (p.readAvailable w (p.limit o budget)).1 = []
  · rw [if_neg (not_not.mpr hdata)]
    exact .ends rfl fun n _ => Or.inr hdata
  · rw [if_pos hdata]
    have hdrains := drain_drains o w budget (p.readAvailable w (p.limit o budget)).2
      (p.readAvailable w (p.limit o budget)).1
    have hpos := List.length_pos_of_ne_nil hdata
    generalize Poll.drain w o budget _ _ = ended at hdrains
    cases hdrains with
    | raised hreads htaken hfed hdecoded herror =>
      refine .ends hreads ?_
      intro n hn
      cases hn
    | spent hfed hspent =>
      refine .ends hfed.reads ?_
      intro n hn
      cases hn
      exact Or.inl hspent
    | more hfed hbelow =>
      refine .more hfed.reads hdata ?_
      have hdrained : (p.readAvailable w (p.limit o budget)).2.drained = p.drained := rfl
      rw [hfed.drained, hdrained]
      omega

/-- Whatever was read so far has found something. -/
def Busy (p : Poll ω) : Prop := ∀ read ∈ p.reads, read.data ≠ []

theorem Busy.again {p q : Poll ω} (hbusy : Busy p) (hend : AtOnce budget p (.again q)) :
    Busy q ∧ p.drained < q.drained := by
  cases hend with
  | more hreads hdata hgrows =>
    refine ⟨?_, hgrows⟩
    intro read hread
    rw [hreads] at hread
    rcases List.mem_append.mp hread with hread | hread
    · exact hbusy read hread
    · rw [List.mem_singleton.mp hread]
      exact hdata

/-- The poll ends with the first read that spends the budget or finds nothing. -/
structure Stopped (budget : ℤ) (r : Poll.End ω) : Prop where
  found : ∀ read ∈ r.2.reads.dropLast, read.data ≠ []
  unspent : ((r.2.reads.dropLast.flatMap Read.data).length : ℤ) < budget
  last : ∀ n, r.1 = .ok n →
    n = budget ∨ ∃ size, r.2.reads.getLast? = some ⟨.readAvailable, size, []⟩

variable {o w budget} in
theorem Head.stopped {c : Client} {p : Poll ω} {r : Poll.End ω} (h : Head budget c p)
    (hbusy : Busy p) (hfinished : Finished budget c r) (hend : AtOnce budget p (.leave r)) :
    Stopped budget r := by
  cases hend with
  | @ends q size data result hreads hlast =>
    have hbefore : q.reads.dropLast = p.reads := by
      rw [hreads, List.dropLast_concat]
    constructor
    · show ∀ read ∈ q.reads.dropLast, read.data ≠ []
      rw [hbefore]
      exact hbusy
    · have hbytes : p.reads.flatMap Read.data = p.fed.flatten := by
        rw [← List.append_nil p.fed.flatten]
        exact h.account.bytes
      show ((q.reads.dropLast.flatMap Read.data).length : ℤ) < budget
      rw [hbefore, hbytes, ← h.account.drained]
      exact h.below
    · intro n hn
      rcases hlast n hn with hspent | rfl
      · left
        have hcounted := hfinished.counted n hn
        have hwithin := hfinished.within
        omega
      · right
        refine ⟨size, ?_⟩
        show q.reads.getLast? = _
        rw [hreads, List.getLast?_concat]

end AtOnce

/-! ### Runs -/

section Runs

variable (o : Options) {ω : Type u} (w : Surroundings ω) (timeout : ℚ) (maxBytes : Option ℤ)
  (s : ω) (c : Client)

theorem start_head (hbudget : 1 ≤ drainBudget o maxBytes) :
    Head (drainBudget o maxBytes) c (start w s c) :=
  ⟨⟨rfl, rfl, rfl, [], rfl⟩, hbudget⟩

variable {o w timeout maxBytes s c} in
/-- The bound on the passes decides whether there is a result, not which. -/
theorem pollAsyncPackets_unique {passes passes' : ℕ} {r r' : Poll.End ω}
    (h : pollAsyncPackets o w timeout maxBytes s c passes = some r)
    (h' : pollAsyncPackets o w timeout maxBytes s c passes' = some r') : r = r' :=
  (leaves_of_runFor h).unique (leaves_of_runFor h')

variable {o c} in
theorem pollPass_good (hchunk : 1 ≤ o.readChunkSize) {p : Poll ω}
    (h : Head (drainBudget o maxBytes) c p) :
    Good (drainBudget o maxBytes) c (pollPass o w timeout maxBytes s p) :=
  pass_good hchunk h

variable {o c} in
theorem head_keeps (hchunk : 1 ≤ o.readChunkSize) (p q : Poll ω)
    (h : Head (drainBudget o maxBytes) c p)
    (hpass : pollPass o w timeout maxBytes s p = .again q) : Head (drainBudget o maxBytes) c q := by
  have hgood := pollPass_good w timeout maxBytes s hchunk h
  rw [hpass] at hgood
  exact hgood

variable {o timeout} in
/-- Without a timeout every pass that goes on has read something, and the budget runs out. -/
theorem poll_stops (hbudget : 1 ≤ drainBudget o maxBytes) (hchunk : 1 ≤ o.readChunkSize)
    (htimeout : timeout ≤ 0) :
    ∃ r, pollAsyncPackets o w timeout maxBytes s c (drainBudget o maxBytes).toNat = some r ∧
      Stopped (drainBudget o maxBytes) r := by
  have honce : ∀ p, AtOnce (drainBudget o maxBytes) p (pollPass o w timeout maxBytes s p) :=
    pass_atOnce o w _ _ htimeout
  have hkeep : ∀ p q, Head (drainBudget o maxBytes) c p ∧ Busy p →
      pollPass o w timeout maxBytes s p = .again q →
      (Head (drainBudget o maxBytes) c q ∧ Busy q) ∧ p.drained < q.drained := by
    rintro p q ⟨hhead, hbusy⟩ hpass
    have hend := honce p
    rw [hpass] at hend
    obtain ⟨hstill, hgrows⟩ := hbusy.again _ hend
    exact ⟨⟨head_keeps w timeout maxBytes s hchunk p q hhead hpass, hstill⟩, hgrows⟩
  have hinitial : Head (drainBudget o maxBytes) c (start w s c) ∧ Busy (start w s c) :=
    ⟨start_head o w maxBytes s c hbudget, fun read hread => absurd hread List.not_mem_nil⟩
  have hlower : ∀ p q, Head (drainBudget o maxBytes) c p ∧ Busy p →
      pollPass o w timeout maxBytes s p = .again q →
      (drainBudget o maxBytes - 1 - q.drained).toNat <
        (drainBudget o maxBytes - 1 - p.drained).toNat := by
    intro p q h hpass
    obtain ⟨⟨hhead, -⟩, hgrows⟩ := hkeep p q h hpass
    have hbelow := hhead.below
    omega
  have hpasses : (drainBudget o maxBytes - 1 - (start w s c).drained).toNat <
      (drainBudget o maxBytes).toNat := by
    show (drainBudget o maxBytes - 1 - 0).toNat < (drainBudget o maxBytes).toNat
    omega
  obtain ⟨r, hr⟩ :=
    runFor_returns (fun p q h hpass => (hkeep p q h hpass).1) hlower hinitial hpasses
  refine ⟨r, hr, ?_⟩
  apply (leaves_of_runFor hr).ensures (fun p q h hpass => (hkeep p q h hpass).1) ?_ hinitial
  rintro p r ⟨hhead, hbusy⟩ hpass
  have hgood := pollPass_good w timeout maxBytes s hchunk hhead
  have hend := honce p
  rw [hpass] at hgood hend
  exact hhead.stopped hbusy hgood hend

/-- The byte budget of a poll, whatever the transport has to give. -/
theorem poll_respects_budget (hbudget : 1 ≤ drainBudget o maxBytes)
    (hchunk : 1 ≤ o.readChunkSize) :
    (timeout ≤ 0 →
      ∃ r, pollAsyncPackets o w timeout maxBytes s c (drainBudget o maxBytes).toNat = some r ∧
        Stopped (drainBudget o maxBytes) r) ∧
    (∀ p, Reaches (pollPass o w timeout maxBytes s) (start w s c) p →
      Head (drainBudget o maxBytes) c p) ∧
    ∀ passes r, pollAsyncPackets o w timeout maxBytes s c passes = some r →
      Finished (drainBudget o maxBytes) c r := by
  have hhead := start_head o w maxBytes s c hbudget
  have hkeep := head_keeps (c := c) w timeout maxBytes s hchunk
  refine ⟨?_, ?_, ?_⟩
  · intro htimeout
    exact poll_stops w maxBytes s c hbudget hchunk htimeout
  · intro p hreaches
    exact hreaches.keeps hkeep hhead
  · intro passes r hr
    apply (leaves_of_runFor hr).ensures hkeep ?_ hhead
    intro p r h hpass
    have hgood := pollPass_good w timeout maxBytes s hchunk h
    rw [hpass] at hgood
    exact hgood

end Runs

/-- A device that sends without a pause; every byte is noise. -/
def flood : Surroundings Unit where
  read _ n := (List.replicate n.toNat 0, ())
  readAvailable _ n := (List.replicate n.toNat 0, ())
  monotonic _ := (0, ())
  callbacks _ c _ := { state := (), client := c }
  read_le _ n hn := by
    rw [List.length_replicate]
    omega
  readAvailable_le _ n hn := by
    rw [List.length_replicate]
    omega
  callbacks_feed _ _ _ := ⟨[], rfl⟩

theorem poll_respects_budget_flood :
    ∃ r, pollAsyncPackets { readChunkSize := 4 } flood 0 (some 10) () {} 10 = some r ∧
      r.1 = .ok 10 ∧ Stopped 10 r ∧ Finished 10 {} r := by
  obtain ⟨hstops, -, hends⟩ := poll_respects_budget { readChunkSize := 4 } flood 0 (some 10) () {}
    (by decide) (by decide)
  obtain ⟨r, hr, hstopped⟩ := hstops le_rfl
  have hten : (pollAsyncPackets { readChunkSize := 4 } flood 0 (some 10) () {} 10).map Prod.fst =
      some (.ok 10) := by decide +kernel
  have hresult : some r.1 = some (.ok 10) := by
    rw [← hten]
    exact congrArg (Option.map Prod.fst) hr.symm
  exact ⟨r, hr, Option.some.inj hresult, hstopped, hends _ r hr⟩

/-! ### A poll that waits -/

section Waiting

variable {o : Options} {ω : Type u} {w : Surroundings ω} {timeout deadline : ℚ} {budget : ℤ}
  {left : ω → ℕ}

/-- The clock reaches the deadline after at most so many more looks at it. -/
structure Ticking (w : Surroundings ω) (deadline : ℚ) (left : ω → ℕ) : Prop where
  read : ∀ s n, left (w.read s n).2 ≤ left s
  readAvailable : ∀ s n, left (w.readAvailable s n).2 ≤ left s
  callbacks : ∀ s c packet, left (w.callbacks s c packet).state ≤ left s
  monotonic : ∀ s, (w.monotonic s).1 < deadline → left (w.monotonic s).2 < left s

theorem Ticking.handled (h : Ticking w deadline left) (packets : List Packet) (p : Poll ω) :
    left (packets.foldl (Poll.handleAsyncPacket w o) p).state ≤ left p.state := by
  induction packets generalizing p with
  | nil => exact le_rfl
  | cons packet packets ih =>
    refine (ih _).trans ?_
    unfold Poll.handleAsyncPacket
    dsimp only
    split_ifs
    · exact h.callbacks _ _ _
    · exact le_rfl

theorem Ticking.drain (h : Ticking w deadline left) {p q : Poll ω} {data : List UInt8}
    (hagain : p.drain w o budget data = .again q) : left q.state ≤ left p.state := by
  unfold Poll.drain Poll.feed at hagain
  dsimp only at hagain
  split at hagain
  · cases hagain
  · split_ifs at hagain
    cases hagain
    exact h.handled _ _

theorem Ticking.readSome (h : Ticking w deadline left) (p : Poll ω) (limit : ℤ) :
    left (p.readSome w limit).2.state ≤ left p.state := by
  unfold Poll.readSome
  dsimp only
  split_ifs
  · exact h.read _ _
  · exact (h.readAvailable _ _).trans (h.read _ _)

/-- A pass that goes on has read something or brought the deadline nearer. -/
theorem Ticking.pass (h : Ticking w deadline left) {p q : Poll ω}
    (hagain : p.pass w o timeout deadline budget = .again q) :
    left q.state ≤ left p.state ∧ (p.drained < q.drained ∨ left q.state < left p.state) := by
  have havailable := h.readAvailable p.state (p.limit o budget)
  unfold Poll.pass at hagain
  dsimp only at hagain
  by_cases hdata : (p.readAvailable w (p.limit o budget)).1 = []
  · rw [if_neg (not_not.mpr hdata)] at hagain
    split_ifs at hagain with htimeout hexpired hmore
    · have hclock := h.monotonic _ (not_le.mp hexpired)
      have hsome := (h.drain hagain).trans (h.readSome _ _)
      have hsooner : left q.state < left p.state := (hsome.trans_lt hclock).trans_le havailable
      exact ⟨hsooner.le, Or.inr hsooner⟩
    · have hclock := h.monotonic _ (not_le.mp hexpired)
      have hsome := h.readSome ((p.readAvailable w (p.limit o budget)).2.monotonic w).2
        (((p.readAvailable w (p.limit o budget)).2.monotonic w).2.limit o budget)
      rw [Pass.again.inj hagain] at hsome
      have hsooner : left q.state < left p.state := (hsome.trans_lt hclock).trans_le havailable
      exact ⟨hsooner.le, Or.inr hsooner⟩
  · rw [if_pos hdata] at hagain
    have hgrows := drain_grows hdata hagain
    exact ⟨(h.drain hagain).trans havailable, Or.inl hgrows⟩

/-- From the head of the loop a poll is left, if the clock reaches the deadline. -/
theorem Ticking.leaves (h : Ticking w deadline left) (timeout : ℚ) (hchunk : 1 ≤ o.readChunkSize)
    {c : Client} {p : Poll ω} (hhead : Head budget c p) :
    ∃ r, runFor (Poll.pass w o timeout deadline budget)
      ((budget - p.drained).toNat + left p.state) p = some r := by
  have hkeep : ∀ p q, Head budget c p → p.pass w o timeout deadline budget = .again q →
      Head budget c q := by
    intro p q hp hpass
    have hgood : Good budget c (p.pass w o timeout deadline budget) := pass_good hchunk hp
    rw [hpass] at hgood
    exact hgood
  have hlower : ∀ p q, Head budget c p → p.pass w o timeout deadline budget = .again q →
      (budget - 1 - q.drained).toNat + left q.state <
        (budget - 1 - p.drained).toNat + left p.state := by
    intro p q hp hpass
    have hbelow := (hkeep p q hp hpass).below
    have hnever := pass_grows (limit_bounds p hchunk hp.below).1 hpass
    obtain ⟨hleft, hgrows | hsooner⟩ := h.pass hpass
    · omega
    · omega
  have hbelow := hhead.below
  exact runFor_returns hkeep hlower hhead (by omega)

variable (o) (maxBytes : Option ℤ) (s : ω) (c : Client)

/-- A poll with a timeout returns as well, if the clock reaches the deadline. -/
theorem poll_returns_in_time (hbudget : 1 ≤ drainBudget o maxBytes) (hchunk : 1 ≤ o.readChunkSize)
    (h : Ticking w ((w.monotonic s).1 + timeout) left) :
    ∃ r, pollAsyncPackets o w timeout maxBytes s c
      ((drainBudget o maxBytes).toNat + left (w.monotonic s).2) = some r := by
  have hleaves := h.leaves timeout hchunk (start_head o w maxBytes s c hbudget)
  have hdrained : drainBudget o maxBytes - (start w s c).drained = drainBudget o maxBytes :=
    sub_zero _
  rw [hdrained] at hleaves
  exact hleaves

end Waiting

/-- Nothing ever arrives, and the clock shows how often it was looked at. -/
def silence : Surroundings ℕ where
  read looks _ := ([], looks)
  readAvailable looks _ := ([], looks)
  monotonic looks := (looks, looks + 1)
  callbacks looks c _ := { state := looks, client := c }
  read_le _ n hn := by
    rw [List.length_nil]
    omega
  readAvailable_le _ n hn := by
    rw [List.length_nil]
    omega
  callbacks_feed _ _ _ := ⟨[], rfl⟩

theorem silent_poll_returns : ∃ r, pollAsyncPackets {} silence 3 (some 10) 0 {} 12 = some r := by
  have hticking : Ticking silence ((silence.monotonic 0).1 + 3) fun looks => 3 - looks := by
    refine ⟨fun _ _ => le_rfl, fun _ _ => le_rfl, fun _ _ _ => le_rfl, ?_⟩
    intro looks hbefore
    have hlooks : ((looks : ℕ) : ℚ) < (3 : ℕ) := by simpa [silence] using hbefore
    have hlt : looks < 3 := by exact_mod_cast hlooks
    change 3 - (looks + 1) < 3 - looks
    omega
  exact poll_returns_in_time {} (some 10) 0 {} (by decide) (by decide) hticking

/-! ### The transport of a session -/

/-- The bytes that wait, and how many of them each of the reads to come will find. -/
structure Line where
  waiting : List UInt8
  arrived : List ℕ
  deriving DecidableEq, Repr

def Line.next (l : Line) (size : ℤ) : List UInt8 × Line :=
  let data := transportRead l.waiting size (l.arrived.headD 0)
  (data, ⟨l.waiting.drop data.length, l.arrived.tail⟩)

theorem Line.next_le (l : Line) {size : ℤ} (hsize : 1 ≤ size) :
    ((l.next size).1.length : ℤ) ≤ size := by
  show ((transportRead l.waiting size (l.arrived.headD 0)).length : ℤ) ≤ size
  rw [transportRead, List.length_take]
  omega

def line : Surroundings Line where
  read := Line.next
  readAvailable := Line.next
  monotonic l := (0, l)
  callbacks l c _ := { state := l, client := c }
  read_le l _ hsize := l.next_le hsize
  readAvailable_le l _ hsize := l.next_le hsize
  callbacks_feed _ _ _ := ⟨[], rfl⟩

/-- Over such a transport the two parts of a read are those of a session. -/
theorem readSome_line (p : Poll Line) (limit : ℤ) {first second : ℕ} {later : List ℕ}
    (harrived : p.state.arrived = first :: second :: later) :
    (p.readSome line limit).1 = HostClient.readSome p.state.waiting limit (first, second) := by
  have hfirst : (p.read line 1).1 = transportRead p.state.waiting 1 first := by
    show transportRead p.state.waiting 1 (p.state.arrived.headD 0) = _
    rw [harrived, List.headD_cons]
  have hstate : (p.read line 1).2.state =
      ⟨p.state.waiting.drop (p.read line 1).1.length, second :: later⟩ := by
    show Line.mk (p.state.waiting.drop (p.read line 1).1.length) p.state.arrived.tail = _
    rw [harrived, List.tail_cons]
  unfold Poll.readSome HostClient.readSome
  dsimp only
  rw [← hfirst]
  split_ifs
  · rfl
  · show (p.read line 1).1 ++ transportRead (p.read line 1).2.state.waiting _
      ((p.read line 1).2.state.arrived.headD 0) = _
    rw [hstate, List.headD_cons]

end PollBudgets
