import TlBleSdk.Esl.Defs

/-!
# The responses to a control point payload

The first loop of `app_esl_handleControlPointCmds` counts the unicast commands, and the second
one takes a response off this count wherever a handler gave one. What the payload is to be
answered with is `expectedRsps`: one whole response for each unicast command that requires one. The
count is right where no broadcast is answered; it keeps room for a unicast command without a
response. The basic state is a byte shorter than its opcode announces.
-/

namespace TlBleSdk.Esl

open EslApp

/-- A unicast command requires a response, but for the ones that have none. -/
def EslCommand.needsRsp (c : EslCommand) : Bool :=
  c.unicast && match c.body with
    | .factoryReset | .updateComplete | .unknown _ => false
    | _ => true

/-- The number of responses that are required. -/
def needCount (cmds : List EslCommand) : ℕ := cmds.countP EslCommand.needsRsp

variable (env : EslEnv)

/-- The command is answered with the basic state. -/
def EslCommand.asksBasicState (c : EslCommand) : Bool :=
  match c.body with
  | .ping | .serviceReset | .unassociateFromAp => true
  | _ => false

/-- The response with all bytes that its opcode announces. Those that were not written are zero. -/
def EslRsp.complete (r : EslRsp) : EslRsp :=
  { r with
    parameters := (r.parameters ++ List.replicate (1 + r.opcode / 16) 0).take (1 + r.opcode / 16) }

/-- The response to a command: the one of its handler where it leaves room for the least of
the remaining ones, else the error. -/
def fitRsp (room left : ℕ) (r : EslRsp) : EslRsp :=
  if r.size + left * cmdRspMinLength ≤ room then r else .error .capacityLimit

/-- The responses that the commands are to get, in `room` bytes. -/
def expectedRsps : EslApp → ℕ → List EslCommand → List EslRsp
  | _, _, [] => []
  | s, room, c :: cmds =>
    match c.needsRsp, (handleCommand env s c).2 with
    | true, some r =>
      let r := fitRsp room (needCount cmds) r.complete
      r :: expectedRsps (handleCommand env s c).1 (room - r.size) cmds
    | _, _ => expectedRsps (handleCommand env s c).1 room cmds

/-- In every round that has a response, one is still expected. -/
def NoWrap : EslRspState → List EslCommand → Prop
  | _, [] => True
  | p, c :: cmds =>
    ((handleCommand env p.esl c).2 ≠ none → 0 < p.rspLeft) ∧ NoWrap (rspRound env p c) cmds

/-- The payload is answered as it is to be, the count never goes below zero, and the responses
fit. -/
structure RspOk (s : EslApp) (cmds : List EslCommand) : Prop where
  rsps : (handleControlPointCmds env s cmds).rsps = expectedRsps env s maxEslPayloadSize cmds
  noWrap : (unicastCount cmds) * cmdRspMinLength ≤ maxEslPayloadSize →
    NoWrap env ⟨s, [], unicastCount cmds⟩ cmds
  used : (handleControlPointCmds env s cmds).used ≤ maxEslPayloadSize

/-- No broadcast is answered, and no command with the basic state. A response that leaves room for
the ones required leaves room for all that are still counted. A unicast command without a response
stays counted. -/
def RspCond : EslApp → ℕ → ℕ → List EslCommand → Prop
  | _, _, _, [] => True
  | s, room, left, c :: cmds =>
    match c.unicast, (handleCommand env s c).2 with
    | false, some _ => False
    | true, some r => c.asksBasicState = false ∧
      (r.size + needCount cmds * cmdRspMinLength ≤ room →
        r.size + (left - 1) * cmdRspMinLength ≤ room) ∧
      RspCond (handleCommand env s c).1 (room - (fitRsp room (needCount cmds) r).size) (left - 1)
        cmds
    | _, none => RspCond (handleCommand env s c).1 room left cmds

/-- The payload has at most as many unicast commands as there is room for, or none of them
requires a response, and the commands meet the condition. -/
def PayloadCond (s : EslApp) (cmds : List EslCommand) : Prop :=
  if unicastCount cmds * cmdRspMinLength ≤ maxEslPayloadSize then
    RspCond env s maxEslPayloadSize (unicastCount cmds) cmds
  else needCount cmds = 0

/-! ## The handlers -/

section Handlers

variable {env}

theorem ledTimedRsp_isSome (ledId : ℕ) (result : TimedResult) :
    (ledTimedRsp true ledId result).isSome = true := by
  cases result <;> rfl

theorem displayTimedRsp_isSome (displayId imageId : ℕ) (result : TimedResult) :
    (displayTimedRsp true displayId imageId result).isSome = true := by
  cases result <;> rfl

/-- A unicast command has a response exactly if it requires one. -/
theorem handleCommand_unicast (s : EslApp) {c : EslCommand} (hc : c.unicast = true) :
    ((handleCommand env s c).2).isSome = c.needsRsp := by
  rcases c with ⟨eslId, body⟩
  unfold EslCommand.needsRsp
  rw [hc, Bool.true_and]
  have hreply : ∀ (b : EslCommandBody) (r : EslRsp),
      (EslCommand.unicast ⟨eslId, b⟩ = EslCommand.unicast ⟨eslId, body⟩) →
      (if EslCommand.unicast ⟨eslId, b⟩ then some r else none).isSome = true := by
    intro b r hb
    rw [hb, hc]
    rfl
  cases body with
  | ledTimedControl ledId params time =>
    rw [handleCommand_ledTimedControl, hc]
    exact ledTimedRsp_isSome _ _
  | displayTimedImage displayId imageId time =>
    rw [handleCommand_displayTimedImage, hc]
    exact displayTimedRsp_isSome _ _ _
  | displayImage displayId imageId =>
    unfold handleCommand
    simp only [hc, if_true]
    split
    · rfl
    · rfl
  | unassociateFromAp => rfl
  | factoryReset => rfl
  | updateComplete => rfl
  | unknown opcode => rfl
  | _ => exact hreply _ _ rfl

theorem complete_of_whole {r : EslRsp} (h : r.Whole) : r.complete = r := by
  have hlen : r.parameters.length = 1 + r.opcode / 16 := by
    unfold EslRsp.Whole EslRsp.size EslRsp.responseSize at h
    omega
  unfold EslRsp.complete
  rw [← hlen, List.take_left]

theorem ledTimedRsp_whole {unicast : Bool} {ledId : ℕ} {result : TimedResult} {r : EslRsp}
    (h : ledTimedRsp unicast ledId result = some r) : r.Whole := by
  have hcases : r = .ledState ledId ∨ ∃ e, r = .error e := by
    cases unicast <;> cases result <;> cases h <;> first | exact .inl rfl | exact .inr ⟨_, rfl⟩
  rcases hcases with rfl | ⟨e, rfl⟩
  · exact EslRsp.whole_ledState ledId
  · exact EslRsp.whole_error e

theorem displayTimedRsp_whole {unicast : Bool} {displayId imageId : ℕ} {result : TimedResult}
    {r : EslRsp} (h : displayTimedRsp unicast displayId imageId result = some r) : r.Whole := by
  have hcases : r = .displayState displayId imageId ∨ ∃ e, r = .error e := by
    cases unicast <;> cases result <;> cases h <;> first | exact .inl rfl | exact .inr ⟨_, rfl⟩
  rcases hcases with rfl | ⟨e, rfl⟩
  · exact EslRsp.whole_displayState displayId imageId
  · exact EslRsp.whole_error e

/-- All answers but the basic state are whole. -/
theorem whole_of_answer {s : EslApp} {c : EslCommand} {r : EslRsp}
    (hr : (handleCommand env s c).2 = some r) (hc : c.asksBasicState = false) : r.Whole := by
  rcases c with ⟨eslId, body⟩
  have hreply : ∀ {b : Bool} {r' : EslRsp}, r'.Whole →
      (if b then some r' else none) = some r → r.Whole := by
    intro b r' hr' h
    cases b with
    | false => cases h
    | true => exact Option.some.inj h ▸ hr'
  cases body with
  | ledTimedControl ledId params time => exact ledTimedRsp_whole hr
  | displayTimedImage displayId imageId time => exact displayTimedRsp_whole hr
  | displayImage displayId imageId =>
    unfold handleCommand at hr
    dsimp only at hr
    split at hr
    · exact hreply (EslRsp.whole_displayState _ _) hr
    · exact hreply (EslRsp.whole_error _) hr
  | refreshDisplay displayId =>
    refine hreply ?_ hr
    split
    · exact EslRsp.whole_displayState _ _
    · exact EslRsp.whole_error _
  | readSensorData sensorId => exact hreply (EslRsp.whole_sensorValue _ _ _) hr
  | ledControl ledId params => exact hreply (EslRsp.whole_ledState _) hr
  | vendor length parameters =>
    refine hreply ?_ hr
    generalize (if length.val < 1 then none else env.vendorCmd parameters) = answer
    cases answer with
    | none => exact EslRsp.whole_error _
    | some r' => exact r'.2
  | ping => cases hc
  | serviceReset => cases hc
  | unassociateFromAp => cases hc
  | factoryReset => cases hr
  | updateComplete => cases hr
  | unknown opcode => cases hr

/-- The answer is the basic state. -/
theorem answer_of_asksBasicState {s : EslApp} {c : EslCommand} {r : EslRsp}
    (hr : (handleCommand env s c).2 = some r) (hc : c.asksBasicState = true) :
    ∃ flags, r = .basicState flags := by
  rcases c with ⟨eslId, body⟩
  have hreply : ∀ {b : Bool} {flags : ℕ},
      (if b then some (EslRsp.basicState flags) else none) = some r →
        ∃ flags, r = .basicState flags := by
    intro b flags h
    cases b with
    | false => cases h
    | true => exact ⟨flags, (Option.some.inj h).symm⟩
  cases body with
  | ping => exact hreply hr
  | serviceReset => exact hreply hr
  | unassociateFromAp => exact ⟨_, (Option.some.inj hr).symm⟩
  | _ => cases hc

theorem needsRsp_unicast {c : EslCommand} (hc : c.needsRsp = true) : c.unicast = true := by
  unfold EslCommand.needsRsp at hc
  rw [Bool.and_eq_true] at hc
  exact hc.1

theorem needCount_le (cmds : List EslCommand) : needCount cmds ≤ unicastCount cmds :=
  List.countP_mono_left fun _ _ => needsRsp_unicast

end Handlers

/-! ## A round of the second loop -/

section Round

variable {env} {p : EslRspState} {c : EslCommand} {cmds : List EslCommand}

theorem rspRound_none (h : (handleCommand env p.esl c).2 = none) :
    rspRound env p c = { p with esl := (handleCommand env p.esl c).1 } := by
  unfold rspRound
  rcases hc : handleCommand env p.esl c with ⟨esl, _ | r⟩
  · rfl
  · rw [hc] at h
    cases h

theorem rspRound_some {r : EslRsp} (h : (handleCommand env p.esl c).2 = some r)
    (hused : p.used ≤ maxEslPayloadSize) (hleft : 0 < p.rspLeft) (hlt : p.rspLeft < 256) :
    rspRound env p c = ⟨(handleCommand env p.esl c).1,
      p.rsps ++ [fitRsp (maxEslPayloadSize - p.used) (p.rspLeft - 1) r], p.rspLeft - 1⟩ := by
  have hpred : u8Pred p.rspLeft = p.rspLeft - 1 := by
    unfold u8Pred u8
    omega
  have hroom : u32Sub maxEslPayloadSize p.used = maxEslPayloadSize - p.used :=
    u32Sub_of_le hused (by decide)
  unfold rspRound
  rcases hc : handleCommand env p.esl c with ⟨esl, _ | r'⟩
  · rw [hc] at h
    cases h
  · rw [hc] at h
    cases h
    simp only [hpred, hroom]
    unfold fitRsp
    split
    · rw [if_neg (by omega)]
    · rw [if_pos (by omega)]

/-- The second loop only adds responses, at least the ones that are required. -/
theorem foldl_rspRound_rsps (env : EslEnv) (cmds : List EslCommand) (p : EslRspState) :
    ∃ l, (cmds.foldl (rspRound env) p).rsps = p.rsps ++ l ∧ needCount cmds ≤ l.length := by
  induction cmds generalizing p with
  | nil => exact ⟨[], (List.append_nil _).symm, Nat.le_refl _⟩
  | cons c cmds ih =>
    rw [List.foldl_cons, needCount, List.countP_cons]
    obtain ⟨l, hl, hlen⟩ := ih (rspRound env p c)
    have hround : ∃ l', (rspRound env p c).rsps = p.rsps ++ l' ∧
        l'.length = if (handleCommand env p.esl c).2.isSome then 1 else 0 := by
      unfold rspRound
      rcases handleCommand env p.esl c with ⟨esl, _ | r⟩
      · exact ⟨[], (List.append_nil _).symm, rfl⟩
      · exact ⟨[_], rfl, rfl⟩
    obtain ⟨l', hl', hlen'⟩ := hround
    refine ⟨l' ++ l, by rw [hl, hl', List.append_assoc], ?_⟩
    rw [List.length_append, hlen']
    have hneed : (if c.needsRsp = true then 1 else 0) ≤
        if (handleCommand env p.esl c).2.isSome = true then 1 else 0 := by
      cases hc : c.needsRsp with
      | false => exact Nat.zero_le _
      | true =>
        apply Nat.le_of_eq
        rw [handleCommand_unicast p.esl (needsRsp_unicast hc), hc]
    unfold needCount at hlen
    omega

/-- The number of the responses that are to be given. -/
theorem length_expectedRsps (env : EslEnv) (s : EslApp) (room : ℕ) (cmds : List EslCommand) :
    (expectedRsps env s room cmds).length = needCount cmds := by
  induction cmds generalizing s room with
  | nil => rfl
  | cons c cmds ih =>
    unfold expectedRsps needCount
    rw [List.countP_cons]
    cases hc : c.needsRsp with
    | false =>
      simp only [Bool.false_eq_true, if_false]
      exact ih _ _
    | true =>
      have hsome := @handleCommand_unicast env s c (needsRsp_unicast hc)
      rw [hc] at hsome
      obtain ⟨r, hr⟩ := Option.isSome_iff_exists.mp hsome
      simp only [hr, if_true, List.length_cons]
      rw [ih]
      rfl

theorem size_fitRsp_le {room left : ℕ} {r : EslRsp} (h : (left + 1) * cmdRspMinLength ≤ room) :
    (fitRsp room left r).size + left * cmdRspMinLength ≤ room := by
  unfold cmdRspMinLength at h
  unfold fitRsp
  split
  · assumption
  · rw [EslRsp.size_error]
    unfold cmdRspMinLength
    omega

/-- Two counts give the same response exactly if it fits with both or with none. -/
theorem fitRsp_eq_iff {room need left : ℕ} {r : EslRsp} (hle : need ≤ left)
    (h : (left + 1) * cmdRspMinLength ≤ room) :
    fitRsp room left r = fitRsp room need r ↔
      (r.size + need * cmdRspMinLength ≤ room → r.size + left * cmdRspMinLength ≤ room) := by
  unfold cmdRspMinLength at h
  unfold fitRsp cmdRspMinLength
  by_cases hleft : r.size + left * 2 ≤ room
  · have hneed : r.size + need * 2 ≤ room := by omega
    rw [if_pos hleft, if_pos hneed]
    exact iff_of_true rfl fun _ => hleft
  · rw [if_neg hleft]
    by_cases hneed : r.size + need * 2 ≤ room
    · rw [if_pos hneed]
      refine iff_of_false ?_ fun himp => hleft (himp hneed)
      -- the response is longer than the error in its place
      rintro rfl
      rw [EslRsp.size_error] at hleft
      omega
    · rw [if_neg hneed]
      exact iff_of_true rfl fun hno => absurd hno hneed

/-- The basic state fits, and is neither the whole response nor the error. -/
theorem fitRsp_basicState_ne {room need left flags : ℕ}
    (h : (left + 1) * cmdRspMinLength ≤ room) :
    fitRsp room left (.basicState flags) ≠ fitRsp room need (EslRsp.basicState flags).complete := by
  have hfits : (EslRsp.basicState flags).size + left * cmdRspMinLength ≤ room := by
    show 2 + left * cmdRspMinLength ≤ room
    unfold cmdRspMinLength at h ⊢
    omega
  rw [fitRsp, if_pos hfits, fitRsp]
  intro heq
  split at heq
  · have hlen : (EslRsp.basicState flags).complete.parameters.length = 2 := by
      simp [EslRsp.complete, EslRsp.basicState]
    rw [← heq] at hlen
    exact absurd hlen (by decide : ¬ 1 = 2)
  · have hop : 0x10 = 0x00 := congrArg EslRsp.opcode heq
    cases hop

end Round

/-! ## The second loop -/

section Loop

variable {env}

/-- The rest of the second loop does what it is to do. -/
structure RestOk (env : EslEnv) (p : EslRspState) (cmds : List EslCommand) : Prop where
  rsps : (cmds.foldl (rspRound env) p).rsps =
    p.rsps ++ expectedRsps env p.esl (maxEslPayloadSize - p.used) cmds
  noWrap : NoWrap env p cmds
  used : (cmds.foldl (rspRound env) p).used ≤ maxEslPayloadSize

/-- There is room for the least response to each command that is still counted. -/
structure Room (p : EslRspState) (cmds : List EslCommand) : Prop where
  counted : unicastCount cmds ≤ p.rspLeft
  room : p.used + p.rspLeft * cmdRspMinLength ≤ maxEslPayloadSize

theorem expectedRsps_skip {s : EslApp} {room : ℕ} {c : EslCommand} {cmds : List EslCommand}
    (h : c.needsRsp = false) : expectedRsps env s room (c :: cmds) =
      expectedRsps env (handleCommand env s c).1 room cmds := by
  rw [expectedRsps, h]

theorem expectedRsps_need {s : EslApp} {room : ℕ} {c : EslCommand} {cmds : List EslCommand}
    {r : EslRsp} (h : c.needsRsp = true) (hr : (handleCommand env s c).2 = some r) :
    expectedRsps env s room (c :: cmds) = fitRsp room (needCount cmds) r.complete ::
      expectedRsps env (handleCommand env s c).1
        (room - (fitRsp room (needCount cmds) r.complete).size) cmds := by
  rw [expectedRsps, h, hr]

/-- A command without a response leaves the buffer alone. -/
theorem restOk_none {p : EslRspState} {c : EslCommand} {cmds : List EslCommand}
    (hneed : c.needsRsp = false) (hr : (handleCommand env p.esl c).2 = none) :
    RestOk env p (c :: cmds) ↔
      RestOk env { p with esl := (handleCommand env p.esl c).1 } cmds := by
  have hround := rspRound_none hr
  constructor
  · rintro ⟨hrsps, hwrap, hused⟩
    rw [List.foldl_cons, hround] at hrsps hused
    rw [expectedRsps_skip hneed] at hrsps
    refine ⟨hrsps, ?_, hused⟩
    rw [← hround]
    exact hwrap.2
  · rintro ⟨hrsps, hwrap, hused⟩
    refine ⟨?_, ⟨fun hno => absurd hr hno, ?_⟩, ?_⟩
    · rw [List.foldl_cons, hround, expectedRsps_skip hneed]
      exact hrsps
    · rw [hround]
      exact hwrap
    · rw [List.foldl_cons, hround]
      exact hused

theorem unicastCount_cons (c : EslCommand) (cmds : List EslCommand) :
    unicastCount (c :: cmds) = unicastCount cmds + if c.unicast then 1 else 0 :=
  List.countP_cons ..

theorem used_append (p : EslRspState) (esl : EslApp) (r : EslRsp) (left : ℕ) :
    EslRspState.used ⟨esl, p.rsps ++ [r], left⟩ = p.used + r.size := by
  unfold EslRspState.used
  rw [List.map_append, List.sum_append]
  rfl

/-- A command with a response: the response is the one that is to be given, and the rest is
right. -/
theorem restOk_some {p : EslRspState} {c : EslCommand} {cmds : List EslCommand} {r give : EslRsp}
    (hneed : c.needsRsp = true) (hr : (handleCommand env p.esl c).2 = some r)
    (hleft : 0 < p.rspLeft) (hround : rspRound env p c =
      ⟨(handleCommand env p.esl c).1, p.rsps ++ [give], p.rspLeft - 1⟩) :
    RestOk env p (c :: cmds) ↔
      give = fitRsp (maxEslPayloadSize - p.used) (needCount cmds) r.complete ∧
      RestOk env ⟨(handleCommand env p.esl c).1, p.rsps ++ [give], p.rspLeft - 1⟩ cmds := by
  constructor
  · rintro ⟨hrsps, hwrap, hused⟩
    rw [List.foldl_cons, hround] at hrsps hused
    rw [expectedRsps_need hneed hr] at hrsps
    obtain ⟨l, hl, -⟩ := foldl_rspRound_rsps env cmds
      ⟨(handleCommand env p.esl c).1, p.rsps ++ [give], p.rspLeft - 1⟩
    rw [hl, List.append_assoc, List.append_cancel_left_eq, List.singleton_append,
      List.cons.injEq] at hrsps
    refine ⟨hrsps.1, ?_, ?_, hused⟩
    · rw [hl, hrsps.2, used_append, ← Nat.sub_sub, hrsps.1]
    · rw [← hround]
      exact hwrap.2
  · rintro ⟨hgive, hrsps, hwrap, hused⟩
    refine ⟨?_, ⟨fun _ => hleft, ?_⟩, ?_⟩
    · rw [List.foldl_cons, hround, hrsps, expectedRsps_need hneed hr, ← hgive, used_append,
        ← Nat.sub_sub, List.append_assoc]
      rfl
    · rw [hround]
      exact hwrap
    · rw [List.foldl_cons, hround]
      exact hused

/-- The answer to a command that needs none is one too many. -/
theorem not_restOk_of_answer {p : EslRspState} {c : EslCommand} {cmds : List EslCommand}
    {r : EslRsp} (hneed : c.needsRsp = false) (hr : (handleCommand env p.esl c).2 = some r)
    (hused : p.used ≤ maxEslPayloadSize) (hlt : p.rspLeft < 256) :
    ¬ RestOk env p (c :: cmds) := by
  rintro ⟨hrsps, hwrap, -⟩
  have hleft : 0 < p.rspLeft := hwrap.1 (by rw [hr]; exact Option.some_ne_none r)
  obtain ⟨l, hl, hlen⟩ := foldl_rspRound_rsps env cmds (rspRound env p c)
  rw [List.foldl_cons, hl, expectedRsps_skip hneed, rspRound_some hr hused hleft hlt] at hrsps
  have hlength := congrArg List.length hrsps
  simp only [List.length_append, List.length_singleton, length_expectedRsps] at hlength
  omega

theorem needsRsp_of_not_unicast {c : EslCommand} (h : c.unicast = false) : c.needsRsp = false := by
  unfold EslCommand.needsRsp
  rw [h, Bool.false_and]

/-- Behind a response there is room for the others. -/
theorem Room.answered {p : EslRspState} {c : EslCommand} {cmds : List EslCommand}
    (h : Room p (c :: cmds)) (huni : c.unicast = true) {give : EslRsp}
    (hsize : give.size + (p.rspLeft - 1) * cmdRspMinLength ≤ maxEslPayloadSize - p.used)
    (esl : EslApp) : Room ⟨esl, p.rsps ++ [give], p.rspLeft - 1⟩ cmds := by
  have hcounted := h.counted
  have hroom := h.room
  rw [unicastCount_cons, if_pos huni] at hcounted
  unfold maxEslPayloadSize cmdRspMinLength at hroom hsize
  refine ⟨by dsimp only; omega, ?_⟩
  rw [used_append]
  unfold cmdRspMinLength maxEslPayloadSize
  dsimp only
  omega

/-- The rest of the loop is right exactly under the condition. -/
theorem restOk_iff (p : EslRspState) (cmds : List EslCommand) (hroom : Room p cmds) :
    RestOk env p cmds ↔
      RspCond env p.esl (maxEslPayloadSize - p.used) p.rspLeft cmds := by
  induction cmds generalizing p with
  | nil =>
    refine iff_of_true ⟨(List.append_nil _).symm, trivial, ?_⟩ trivial
    have h := hroom.room
    exact Nat.le_trans (Nat.le_add_right _ _) h
  | cons c cmds ih =>
    have hcounted := hroom.counted
    have hroom' := hroom.room
    have hused : p.used ≤ maxEslPayloadSize := Nat.le_trans (Nat.le_add_right _ _) hroom'
    rw [unicastCount_cons] at hcounted
    unfold maxEslPayloadSize cmdRspMinLength at hroom'
    cases hr : (handleCommand env p.esl c).2 with
    | none =>
      -- the command is not answered, and it is not counted either
      have hneed : c.needsRsp = false := by
        cases huni : c.unicast with
        | false => exact needsRsp_of_not_unicast huni
        | true =>
          rw [← @handleCommand_unicast env p.esl c huni, hr]
          rfl
      have hnext : Room { p with esl := (handleCommand env p.esl c).1 } cmds :=
        ⟨Nat.le_trans (Nat.le_add_right _ _) hcounted, hroom.room⟩
      rw [restOk_none hneed hr, ih _ hnext]
      show RspCond env _ (maxEslPayloadSize - p.used) p.rspLeft cmds ↔ _
      rw [RspCond, hr]
      cases c.unicast <;> exact Iff.rfl
    | some r =>
      rw [RspCond, hr]
      cases huni : c.unicast with
      | false =>
        have hneed := needsRsp_of_not_unicast huni
        exact iff_of_false (not_restOk_of_answer hneed hr hused (by omega)) id
      | true =>
        have hneed : c.needsRsp = true := by
          rw [← @handleCommand_unicast env p.esl c huni, hr]
          rfl
        rw [huni] at hcounted
        simp only [if_true] at hcounted
        -- the least response to each of the others fits behind this one
        have hleft : 0 < p.rspLeft := by omega
        have hround := rspRound_some hr hused hleft (by omega)
        have hle : needCount cmds ≤ p.rspLeft - 1 := by
          have hcount := needCount_le cmds
          omega
        have hfit : (p.rspLeft - 1 + 1) * cmdRspMinLength ≤ maxEslPayloadSize - p.used := by
          unfold cmdRspMinLength maxEslPayloadSize
          omega
        have hsize := size_fitRsp_le (r := r) hfit
        dsimp only
        rw [restOk_some hneed hr hleft hround]
        cases hask : c.asksBasicState with
        | true =>
          obtain ⟨flags, rfl⟩ := answer_of_asksBasicState hr hask
          exact iff_of_false (fun h => fitRsp_basicState_ne hfit h.1)
            fun h => absurd h.1 Bool.noConfusion
        | false =>
          rw [complete_of_whole (whole_of_answer hr hask), ← fitRsp_eq_iff hle hfit]
          generalize fitRsp (maxEslPayloadSize - p.used) (p.rspLeft - 1) r = give at hsize ⊢
          rw [ih _ (hroom.answered huni hsize _), used_append, ← Nat.sub_sub,
            and_iff_right rfl]
          refine and_congr_right fun hgive => ?_
          rw [hgive]

end Loop

/-- A payload of commands, counted in `u8`, is answered as it is to be exactly under the
condition. -/
theorem response_packing (s : EslApp) (cmds : List EslCommand) (hn : cmds.length < 256) :
    RspOk env s cmds ↔ PayloadCond env s cmds := by
  have hlt : unicastCount cmds < 256 := Nat.lt_of_le_of_lt List.countP_le_length hn
  have hu8 : u8 (unicastCount cmds) = unicastCount cmds := u8_of_lt hlt
  unfold PayloadCond
  by_cases hfew : unicastCount cmds * cmdRspMinLength ≤ maxEslPayloadSize
  · have hrun : handleControlPointCmds env s cmds =
        cmds.foldl (rspRound env) ⟨s, [], unicastCount cmds⟩ := by
      unfold handleControlPointCmds
      rw [hu8]
      exact if_neg (by omega)
    have hroom : Room ⟨s, [], unicastCount cmds⟩ cmds :=
      ⟨Nat.le_refl _, by
        rw [EslRspState.used, List.map_nil, List.sum_nil, Nat.zero_add]
        exact hfew⟩
    have hrest := @restOk_iff env ⟨s, [], unicastCount cmds⟩ cmds hroom
    change _ ↔ RspCond env s maxEslPayloadSize (unicastCount cmds) cmds at hrest
    rw [if_pos hfew, ← hrest]
    constructor
    · rintro ⟨hrsps, hwrap, hused⟩
      rw [hrun] at hrsps hused
      exact ⟨hrsps, hwrap hfew, hused⟩
    · rintro ⟨hrsps, hwrap, hused⟩
      refine ⟨?_, fun _ => hwrap, ?_⟩
      · rw [hrun]
        exact hrsps
      · rw [hrun]
        exact hused
  · have hrun : handleControlPointCmds env s cmds = ⟨s, [], unicastCount cmds⟩ := by
      unfold handleControlPointCmds
      rw [hu8]
      exact if_pos (by omega)
    rw [if_neg hfew]
    constructor
    · rintro ⟨hrsps, -, -⟩
      rw [hrun] at hrsps
      rw [← length_expectedRsps env s maxEslPayloadSize cmds, ← hrsps]
      rfl
    · intro hzero
      refine ⟨?_, fun hno => absurd hno hfew, ?_⟩
      · rw [hrun]
        exact (List.eq_nil_of_length_eq_zero ((length_expectedRsps env s _ cmds).trans hzero)).symm
      · rw [hrun]
        exact Nat.zero_le _

/-- A LED and an image that are set, by a broadcast too, and two questions. -/
theorem response_packing_example :
    RspOk { plainEnv with sensorRead := fun _ => ⟨List.replicate 15 0, by decide⟩ } powerOn
      [⟨1, .ledControl 0 ⟨0, 0, 0, 0, fun _ => 0, 0, 0⟩⟩, ⟨1, .readSensorData 0⟩,
        ⟨eslIdBroadcast, .displayImage 0 3⟩, ⟨1, .refreshDisplay 0⟩] := by
  apply (response_packing _ powerOn _ (by decide)).mpr
  exact ⟨rfl, fun _ => by decide, rfl, fun _ => by decide, rfl, fun _ => by decide, trivial⟩

/-- A ping, of whose answer the last byte is missing. A broadcast that is answered. An image that
gets an error, as room is kept for commands that have no response. And a broadcast with so many
images behind it that the responses do not fit. -/
theorem not_rspOk_example :
    ¬ RspOk plainEnv powerOn [⟨1, .ping⟩] ∧
      ¬ RspOk plainEnv powerOn [⟨eslIdBroadcast, .unassociateFromAp⟩] ∧
      ¬ RspOk { plainEnv with sensorRead := fun _ => ⟨List.replicate 15 0, by decide⟩ } powerOn
        ([⟨1, .readSensorData 0⟩, ⟨1, .readSensorData 0⟩, ⟨1, .displayImage 0 3⟩] ++
          List.replicate 6 ⟨1, .updateComplete⟩) ∧
      (handleControlPointCmds plainEnv powerOn
        (⟨eslIdBroadcast, .unassociateFromAp⟩ :: List.replicate 23 ⟨1, .displayImage 0 3⟩)).used =
          50 := by
  refine ⟨fun h => ?_, fun h => ?_, fun h => ?_, by decide +kernel⟩
  · exact absurd h.rsps (by decide +kernel)
  · exact absurd h.rsps (by decide +kernel)
  · exact absurd h.rsps (by decide +kernel)

end TlBleSdk.Esl
