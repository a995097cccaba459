import TeensyIo.DrivenOutputs

/-! # Transfers on the I2C buses

A call to `I2cBus.write` or `I2cBus.read` that returns has made the one transfer it asks for, one
that raises has made it or none, and nothing else makes any. What a read returns is what has
arrived. -/
namespace BusTransfers

open WireCommands HostProtocol HostClient HostResources HostOperations HostFrames FirmwareState
open FirmwareUpdate FirmwareRequests FirmwareOutcomes FirmwareResponses ServedRequests
open RequestLayouts ConfiguredResources MachineRuns
open FirmwareCommands (ackTo nack data refuse applySafeOutputs detachCounter detachEncoder)
open EdgeCallbacks (respond handled)
open DrivenOutputs (effects call_comes sent_isOk refuse_isOk)

inductive Transfer where
  | write (bus address : ℤ) (bytes : List UInt8)
  | read (bus address length : ℤ)
  deriving DecidableEq

/-- The transfers of the two commands. Those of a DAC are apart. -/
def transfer : Effect → Option Transfer
  | .transmit .i2cWrite bus address bytes => some (.write bus.toNat address.toNat bytes)
  | .requestFrom bus address length => some (.read bus.toNat address.toNat length.toNat)
  | _ => none

def transfers (es : List Effect) : List Transfer := es.filterMap transfer

/-- What an operation asks of the bus that it names. -/
def asked (h : Host) : Operation → List Transfer
  | .i2cWrite name address bytes =>
    match (h.i2cBuses name).bus with
    | some bus => [.write bus address bytes]
    | none => []
  | .i2cRead name address length =>
    match (h.i2cBuses name).bus with
    | some bus => [.read bus address length]
    | none => []
  | _ => []

/-- `done` is what has been transferred, `attempted` what the calls have asked for, and `returned`
what those have that returned. -/
structure Rig where
  bench : Bench := {}
  done : List Transfer := []
  attempted : List Transfer := []
  returned : List Transfer := []

def Rig.step (b : Board) (rig : Rig) (i : Input) : Rig :=
  let bench := rig.bench.step b i
  match i with
  | .call op env =>
    let wanted := asked rig.bench.host op
    { bench := bench
      done := rig.done ++ transfers (effects b rig.bench op env)
      attempted := rig.attempted ++ wanted
      returned := rig.returned ++ if (rig.bench.call b op env).1.isOk then wanted else [] }
  | .update env =>
    { rig with
      bench := bench
      done := rig.done ++ transfers (update b env rig.bench.device).2 }
  | .counterTick _ _ | .encoderTick _ _ => { rig with bench := bench }

/-- The bytes that have arrived, a missing one as a zero. -/
def arrived (env : Env) (length : UInt8) : List UInt8 :=
  let received := (env.requestFrom length).1.toNat
  let got := (env.requestFrom length).2.take received
  got ++ List.replicate (received - got.length) 0

/-- No more bytes arrive than are asked for. -/
theorem length_arrived_le (env : Env) (length : UInt8) :
    (arrived env length).length ≤ length.toNat := by
  have hle : ((env.requestFrom length).2.take (env.requestFrom length).1.toNat).length ≤
      (env.requestFrom length).1.toNat := List.length_take_le _ _
  have hrequested : (env.requestFrom length).1.toNat ≤ length.toNat :=
    UInt8.le_iff_toNat_le.mp (env.requested_le length)
  rw [arrived, List.length_append, List.length_replicate]
  omega

/-! ### Requests -/

section Requests

variable {b : Board} {env : Env} {s : State} {seq : UInt16}

theorem transfers_append (es fs : List Effect) :
    transfers (es ++ fs) = transfers es ++ transfers fs := List.filterMap_append

theorem transfers_none {es : List Effect} (h : ∀ e ∈ es, transfer e = none) : transfers es = [] :=
  List.filterMap_eq_nil_iff.mpr h

theorem transfers_applySafeOutputs : transfers (applySafeOutputs b s) = [] := by
  apply transfers_none
  intro e he
  obtain ⟨pin, -, -, rfl⟩ := FirmwareCommands.mem_applySafeOutputs.mp he
  rfl

theorem transfers_detachCounter (id : UInt8) : transfers (detachCounter s id) = [] := by
  apply transfers_none
  intro e he
  obtain ⟨-, rfl⟩ := FirmwareCommands.mem_detachCounter.mp he
  rfl

theorem transfers_detachEncoder (id : UInt8) : transfers (detachEncoder s id) = [] := by
  apply transfers_none
  intro e he
  obtain ⟨-, rfl | rfl⟩ := FirmwareCommands.mem_detachEncoder.mp he <;> rfl

/-- The requests that use a bus for the program. -/
def UsesBus : Request → Bool
  | .i2cWrite _ _ _ | .i2cRead _ _ _ => true
  | _ => false

theorem executed_transfers {r : Request} {out : Outcome} (h : Executed b env s seq r out)
    (hr : UsesBus r = false) : transfers out.2 = [] := by
  cases h with
  | emergencyStop =>
    change transfers (applySafeOutputs b s ++ [ackTo seq]) = []
    rw [transfers_append, transfers_applySafeOutputs]
    rfl
  | resetConfig =>
    have hcounters : transfers (FirmwareCommands.detachCounters s) = [] := by
      rw [transfers, FirmwareCommands.detachCounters, List.filterMap_flatMap]
      exact List.flatMap_eq_nil_iff.mpr fun id _ => transfers_detachCounter id
    have hencoders : transfers (FirmwareCommands.detachEncoders s) = [] := by
      rw [transfers, FirmwareCommands.detachEncoders, List.filterMap_flatMap]
      exact List.flatMap_eq_nil_iff.mpr fun id _ => transfers_detachEncoder id
    change transfers (applySafeOutputs b s ++ FirmwareCommands.detachCounters s ++
      FirmwareCommands.detachEncoders s ++ [ackTo seq]) = []
    rw [transfers_append, transfers_append, transfers_append, transfers_applySafeOutputs,
      hcounters, hencoders]
    rfl
  | configCounter =>
    dsimp only
    rw [transfers_append, transfers_detachCounter]
    rfl
  | configEncoder =>
    dsimp only
    rw [transfers_append, transfers_append, transfers_detachEncoder]
    rfl
  | i2cWrite | i2cRead => cases hr
  | _ => rfl

/-- A write is refused, or makes its transfer. -/
theorem i2cWrite_transfers (bus address : UInt8) (bytes : List UInt8) :
    let out := FirmwareCommands.i2cWrite b env s seq bus address bytes
    (∃ code, out = refuse s seq code) ∨
      transfers out.2 = [.write bus.toNat address.toNat bytes] := by
  unfold FirmwareCommands.i2cWrite
  split_ifs with hslot hwire hfailed
  · exact Or.inl ⟨_, rfl⟩
  · exact Or.inl ⟨_, rfl⟩
  · exact Or.inr rfl
  · exact Or.inr rfl

/-- A read is refused, or makes its transfer and answers with what has arrived. -/
theorem i2cRead_transfers (bus address length : UInt8) :
    let out := FirmwareCommands.i2cRead b env s seq bus address length
    (∃ code, out = refuse s seq code) ∨
      transfers out.2 = [.read bus.toNat address.toNat length.toNat] ∧
        replyTo out = .ok (arrived env length) := by
  unfold FirmwareCommands.i2cRead
  split_ifs with hslot hwire
  · exact Or.inl ⟨_, rfl⟩
  · exact Or.inl ⟨_, rfl⟩
  · exact Or.inr ⟨rfl, rfl⟩

end Requests

/-! ### Calls -/

section Calls

variable {b : Board} {env : Env} {k : Bench} {op : Operation}

theorem outcome_isOk {α : Type} (result : Result α) :
    (outcome result).1.isOk = result.1.isOk := by
  obtain ⟨error | v, h⟩ := result
  · rfl
  · rfl

theorem asked_none {h : Host} {r : Request} (hm : Meant h op r) (hr : UsesBus r = false) :
    asked h op = [] := by
  cases hm with
  | i2cWrite | i2cRead => cases hr
  | _ => rfl

theorem i2cWrite_isOk {respond : List Command → Except PyError (List UInt8)} {h : Host}
    {name : String} {address bus : ℤ} {bytes : List UInt8}
    (hbus : (h.i2cBuses name).bus = some bus)
    (hsent : (i2cWrite respond h name address bytes).2.log ≠ h.log) :
    (outcome (i2cWrite respond h name address bytes)).1.isOk =
      (respond (i2cWrite respond h name address bytes).2.log).isOk := by
  rw [i2cWrite, hbus] at hsent ⊢
  exact sent_isOk hsent

/-- A read that has sent its command returns the response, or raises as it does. -/
theorem i2cRead_response {respond : List Command → Except PyError (List UInt8)} {h : Host}
    {name : String} {address length : ℤ}
    (hsent : (i2cRead respond h name address length).2.log ≠ h.log) :
    (i2cRead respond h name address length).1 =
      respond (i2cRead respond h name address length).2.log := by
  unfold i2cRead command at hsent ⊢
  cases hbus : (h.i2cBuses name).bus with
  | none =>
    rw [hbus] at hsent
    exact absurd rfl hsent
  | some bus =>
    rw [hbus] at hsent
    dsimp only at hsent ⊢
    by_cases hlength : length < 0 ∨ 128 < length
    · rw [if_pos hlength] at hsent
      exact absurd rfl hsent
    · rw [if_neg hlength] at hsent ⊢
      generalize (u7Address address).bind (fun address => pyBytes [bus, address, length]) =
        payload at hsent ⊢
      cases payload with
      | error error => exact absurd rfl hsent
      | ok bytes =>
        dsimp only at hsent ⊢
        by_cases hsize : maxPayloadSize < bytes.length + 1
        · rw [if_pos hsize] at hsent
          exact absurd rfl hsent
        · rw [if_neg hsize]

theorem i2cRead_isOk {respond : List Command → Except PyError (List UInt8)} {h : Host}
    {name : String} {address length : ℤ}
    (hsent : (i2cRead respond h name address length).2.log ≠ h.log) :
    (outcome (i2cRead respond h name address length)).1.isOk =
      (respond (i2cRead respond h name address length).2.log).isOk := by
  rw [← i2cRead_response hsent]
  exact outcome_isOk _

/-- A read that returns has the bytes that have arrived. -/
theorem i2cRead_arrived {name : String} {address length : ℤ} {bytes : List UInt8}
    (hok : (i2cRead (respond b env k.device) k.host name address length).1 = .ok bytes) :
    ∃ n : UInt8, (n.toNat : ℤ) = length ∧ bytes = arrived env n ∧ bytes.length ≤ n.toNat := by
  rcases i2cRead_sends (respond b env k.device) k.host name address length with
    ⟨⟨error, hraised⟩, -⟩ | ⟨id, payload, r, hlog, hsize, hl, hm⟩
  · rw [hraised] at hok
    cases hok
  · have hsent : (i2cRead (respond b env k.device) k.host name address length).2.log ≠
        k.host.log := by
      rw [hlog]
      intro hsame
      exact List.cons_ne_nil _ _ (List.append_right_eq_self.mp hsame)
    rw [i2cRead_response hsent, hlog, respond_laid hsize hl] at hok
    cases hm with
    | @i2cRead _ _ _ bus target n hbus haddress hlength =>
      rcases @i2cRead_transfers b env k.device _ bus target n with ⟨code, hrefused⟩ | ⟨-, hreply⟩
      · exact absurd ⟨bytes, (congrArg replyTo hrefused).symm.trans hok⟩ not_accepts_refuse
      · obtain rfl := Except.ok.inj (hok.symm.trans hreply)
        exact ⟨n, hlength, rfl, length_arrived_le env n⟩

/-- A call makes the transfer that it asks for, or it makes none and raises if it asks for one. -/
theorem call_transfers (b : Board) (k : Bench) (op : Operation) (env : Env) :
    transfers (effects b k op env) = asked k.host op ∨
      transfers (effects b k op env) = [] ∧ (k.call b op env).1.isOk = false := by
  cases call_comes b k op env with
  | raised error hraised hnone hdevice =>
    right
    rw [hnone, hraised]
    exact ⟨rfl, rfl⟩
  | executed r hm hsent hreply heffects hdevice =>
    cases hr : UsesBus r with
    | false =>
      left
      rw [heffects, asked_none hm hr]
      exact executed_transfers (execute_spec b env k.device (nextSeq k.host) r) hr
    | true =>
      cases hm with
      | @i2cWrite name target data bus address hbus haddress =>
        rcases @i2cWrite_transfers b env k.device (nextSeq k.host) bus address data with
          ⟨code, hrefused⟩ | hmade
        · right
          have hout : execute b env k.device (nextSeq k.host) (.i2cWrite bus address data) =
              refuse k.device (nextSeq k.host) code := hrefused
          have hok : (k.call b (.i2cWrite name target data) env).1.isOk =
              (respond b env k.device (k.call b (.i2cWrite name target data) env).2.log).isOk :=
            i2cWrite_isOk hbus hsent
          rw [hok, hreply, heffects, hout, refuse_isOk]
          exact ⟨rfl, rfl⟩
        · left
          rw [heffects, asked, hbus, ← haddress]
          exact hmade
      | @i2cRead name target count bus address length hbus haddress hlength =>
        rcases @i2cRead_transfers b env k.device (nextSeq k.host) bus address length with
          ⟨code, hrefused⟩ | ⟨hmade, -⟩
        · right
          have hout : execute b env k.device (nextSeq k.host) (.i2cRead bus address length) =
              refuse k.device (nextSeq k.host) code := hrefused
          have hok : (k.call b (.i2cRead name target count) env).1.isOk =
              (respond b env k.device (k.call b (.i2cRead name target count) env).2.log).isOk :=
            i2cRead_isOk hsent
          rw [hok, hreply, heffects, hout, refuse_isOk]
          exact ⟨rfl, rfl⟩
        · left
          rw [heffects, asked, hbus, ← haddress, ← hlength]
          exact hmade
      | _ => cases hr

end Calls

/-! ### Runs -/

section Runs

variable {b : Board}

theorem update_transfers (env : Env) (s : State) : transfers (update b env s).2 = [] := by
  obtain ⟨writes, heffects, hwrites⟩ := update_effects b env s
  have hwritten : transfers writes = [] := by
    apply transfers_none
    intro e he
    obtain ⟨type, seq, payload, rfl⟩ := hwrites e he
    rfl
  have hsafe : transfers (safeOutputsOnExpiry b env s) = [] := by
    unfold safeOutputsOnExpiry
    dsimp only
    split_ifs
    · exact transfers_applySafeOutputs
    · rfl
  rw [heffects, transfers_append, hsafe, hwritten]
  rfl

/-- What the calls that have returned ask for is on the bus, and all that is on the bus some call
has asked for. -/
structure Accounted (rig : Rig) : Prop where
  returned : rig.returned.Sublist rig.done
  attempted : rig.done.Sublist rig.attempted

theorem step_accounted {rig : Rig} (h : Accounted rig) (i : Input) :
    Accounted (rig.step b i) := by
  cases i with
  | call op env =>
    rcases call_transfers b rig.bench op env with hmade | ⟨hnone, hraised⟩
    · constructor
      · apply h.returned.append
        rw [hmade]
        split_ifs
        · exact List.Sublist.refl _
        · exact List.nil_sublist _
      · apply h.attempted.append
        rw [hmade]
    · constructor
      · apply h.returned.append
        rw [hraised]
        exact List.nil_sublist _
      · apply h.attempted.append
        rw [hnone]
        exact List.nil_sublist _
  | update env =>
    have hsame : rig.done ++ transfers (update b env rig.bench.device).2 = rig.done := by
      rw [update_transfers, List.append_nil]
    constructor
    · change rig.returned.Sublist (rig.done ++ transfers (update b env rig.bench.device).2)
      rw [hsame]
      exact h.returned
    · change (rig.done ++ transfers (update b env rig.bench.device).2).Sublist rig.attempted
      rw [hsame]
      exact h.attempted
  | counterTick env id => exact ⟨h.returned, h.attempted⟩
  | encoderTick env id => exact ⟨h.returned, h.attempted⟩

/-- In every state of every run the buses have carried, in order, all that the calls that have
returned ask for, and nothing that no call asks for; and a read returns what has arrived. -/
theorem transfers_asked_for (b : Board) (inputs : List Input) :
    EachState (Rig.step b)
      (fun rig => Accounted rig ∧
        ∀ env name address length bytes,
          (i2cRead (respond b env rig.bench.device) rig.bench.host name address length).1 =
            .ok bytes →
          ∃ n : UInt8, (n.toNat : ℤ) = length ∧ bytes = arrived env n ∧ bytes.length ≤ n.toNat)
      {} inputs := by
  apply eachState_of_eachStep (I := Accounted) (G := fun _ _ => True)
  · intro rig i h _
    exact step_accounted h i
  · intro rig h
    refine ⟨h, ?_⟩
    intro env name address length bytes hok
    exact i2cRead_arrived hok
  · exact ⟨List.Sublist.refl [], List.Sublist.refl []⟩
  · exact eachStep_of_forall ({} : Rig) fun _ _ => trivial

end Runs

end BusTransfers
