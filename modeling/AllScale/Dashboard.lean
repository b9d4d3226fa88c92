import AllScale.Optimizer.Tuner
import AllScale.SchedulePolicy.ActiveNodes

/-!
# Commands of the dashboard

The dashboard sends commands to the scheduler, each as a frame of bytes with a payload behind the
first blank. Commands that are not known are reported, and then the next frame is read. A frame
without a blank has no place at which its payload begins, payloads that are no numbers make the
conversions throw, and of a payload that only begins with a number the rest is passed over.
-/

namespace AllScale

open Transition

namespace Dashboard

/-- `scheduler_service` — what the commands of the dashboard change. -/
structure Service (F : Type) where
  /-- The policy and the active nodes. -/
  scheduler : PolicyService
  /-- `objective_`. -/
  objective : TuningObjective F

/-- The calls of the scheduler. -/
inductive Command (F : Type) where
  /-- `scheduler::set_policy`. -/
  | setPolicy (policy : String)
  /-- `scheduler::toggle_node`. -/
  | toggleNode (localityId : Nat)
  /-- `scheduler::set_speed_exponent`. -/
  | setSpeedExponent (exp : F)
  /-- `scheduler::set_efficiency_exponent`. -/
  | setEfficiencyExponent (exp : F)
  /-- `scheduler::set_power_exponent`. -/
  | setPowerExponent (exp : F)

variable {F : Type}

/-- What a call does on a locality. -/
def execute (asserts : Bool) (numLocalities : Nat) (self : Service F) :
    Command F → Except Stop (Service F)
  | .setPolicy policy => do
    return { self with scheduler := ← self.scheduler.setPolicyIn asserts numLocalities policy }
  | .toggleNode localityId => do
    return { self with scheduler := ← self.scheduler.toggleNodeIn asserts localityId }
  | .setSpeedExponent exp =>
    return { self with objective := { self.objective with speedExponent := exp } }
  | .setEfficiencyExponent exp =>
    return { self with objective := { self.objective with efficiencyExponent := exp } }
  | .setPowerExponent exp =>
    return { self with objective := { self.objective with powerExponent := exp } }

/-! ## Conversions -/

/-- What the conversions of strings to numbers throw. -/
inductive Exception where
  /-- `std::invalid_argument` — there is no number at the beginning of the string. -/
  | invalidArgument
  /-- `std::out_of_range` — the number has no representation. -/
  | outOfRange
  deriving DecidableEq

/-- A function that reads a number at the beginning of a string and returns the rest behind it. The
number may have no representation. -/
abbrev Conversion (α : Type) := List Char → Option (Option α × List Char)

/-- `std::isspace`. -/
def isSpace (c : Char) : Bool := c ∈ [' ', '\t', '\n', '\x0b', '\x0c', '\r']

/-- A number as a `long`. -/
def toLong (value : Int) : Option Int :=
  if -2 ^ 63 ≤ value ∧ value < 2 ^ 63 then some value else none

/-- The digits of a number, behind its sign. -/
def readDigits (negative : Bool) : Conversion Int := fun chars =>
  let digits := chars.takeWhile Char.isDigit
  let magnitude : Int := Nat.ofDigitChars 10 digits 0
  if digits = [] then none
  else some (toLong (if negative then -magnitude else magnitude), chars.dropWhile Char.isDigit)

/-- `strtol` for decimal numbers. -/
def strtol : Conversion Int := fun chars =>
  match chars.dropWhile isSpace with
  | '-' :: chars => readDigits true chars
  | '+' :: chars => readDigits false chars
  | chars => readDigits false chars

/-- What `strtol` returns is less than the bound of its type. -/
theorem strtol_lt {chars rest : List Char} {value : Int}
    (read : strtol chars = some (some value, rest)) : value < 2 ^ 63 := by
  have bounded {negative : Bool} {chars : List Char}
      (read : readDigits negative chars = some (some value, rest)) : value < 2 ^ 63 := by
    unfold readDigits toLong at read
    dsimp only at read
    split at read
    · cases read
    · rw [Option.some_inj, Prod.mk.injEq, Option.ite_none_right_eq_some, Option.some_inj] at read
      obtain ⟨⟨inRange, same⟩, -⟩ := read
      exact same ▸ inRange.2
  unfold strtol at read
  split at read
  · exact bounded read
  · exact bounded read
  · exact bounded read

/-- `std::stol` and `std::stof`, with the function that they call. -/
def sto {α : Type} (convert : Conversion α) (str : String) : Except Exception α :=
  match convert str.toList with
  | none => .error .invalidArgument
  | some (none, _) => .error .outOfRange
  | some (some value, _) => .ok value

/-- A string is a number, with nothing left over. -/
def Number {α : Type} (convert : Conversion α) (str : String) (value : α) : Prop :=
  convert str.toList = some (some value, [])

/-- Numbers are converted. -/
theorem Number.sto_eq {α : Type} {convert : Conversion α} {str : String} {value : α}
    (number : Number convert str value) : sto convert str = .ok value := by
  unfold sto
  rw [number]

/-! ## Frames -/

/-- The bytes as a string. -/
def text (bytes : List UInt8) : String :=
  String.ofList (bytes.map fun byte => Char.ofNat byte.toNat)

/-- What becomes of a frame. -/
inductive Handled (F : Type) where
  /-- A command is executed. The next frame is read unless the execution itself stops. -/
  | executed (command : Command F) (after : Except Stop (Service F))
  /-- The command is reported as unknown, then the next frame is read. -/
  | reported (command payload : String) (after : Service F)
  /-- An exception escapes the handler. -/
  | escaped (exception : Exception)
  /-- The string for the payload is built from an iterator behind the end of the frame. -/
  | outside

section Handler

variable (strtof : Conversion F) (asserts : Bool) (numLocalities : Nat) (self : Service F)

/-- A command is executed with the number that its payload is converted to. -/
def executeWith {α : Type} (payload : Except Exception α) (command : α → Command F) : Handled F :=
  match payload with
  | .ok value => .executed (command value) (execute asserts numLocalities self (command value))
  | .error exception => .escaped exception

/-- The handler in `get_commands`, when a frame is split. -/
def dispatch (command payload : String) : Handled F :=
  if command = "set_scheduler" then
    executeWith asserts numLocalities self (.ok payload) .setPolicy
  else if command = "toggle_node" then
    -- the number is converted to `std::size_t`
    executeWith asserts numLocalities self (sto strtol payload) fun value =>
      .toggleNode (value % 2 ^ 64).toNat
  else if command = "set_speed" then
    executeWith asserts numLocalities self (sto strtof payload) .setSpeedExponent
  else if command = "set_efficiency" then
    executeWith asserts numLocalities self (sto strtof payload) .setEfficiencyExponent
  else if command = "set_power" then
    executeWith asserts numLocalities self (sto strtof payload) .setPowerExponent
  else .reported command payload self

/-- The handler of a frame in `get_commands`. -/
def handleCommand (frame : List UInt8) : Handled F :=
  let cmdIt := frame.idxOf 32
  let command := text (frame.take cmdIt)
  if cmdIt = frame.length then .outside
  else dispatch strtof asserts numLocalities self command (text (frame.drop (cmdIt + 1)))

/-- The known commands, with payloads of the kinds that they expect. -/
inductive Expects : String → String → Command F → Prop
  | setScheduler {payload : String} : Expects "set_scheduler" payload (.setPolicy payload)
  | toggleNode {payload : String} {localityId : Nat} : Number strtol payload localityId →
      localityId < self.scheduler.optimizer.activeNodes.length →
      Expects "toggle_node" payload (.toggleNode localityId)
  | setSpeed {payload : String} {exp : F} : Number strtof payload exp →
      Expects "set_speed" payload (.setSpeedExponent exp)
  | setEfficiency {payload : String} {exp : F} : Number strtof payload exp →
      Expects "set_efficiency" payload (.setEfficiencyExponent exp)
  | setPower {payload : String} {exp : F} : Number strtof payload exp →
      Expects "set_power" payload (.setPowerExponent exp)

/-- A frame is split at its first blank. -/
def Splits (frame : List UInt8) (command payload : String) : Prop :=
  ∃ before after, frame = before ++ 32 :: after ∧ 32 ∉ before ∧
    command = text before ∧ payload = text after

/-- A frame is handled well: a known command with a payload of the expected kind is executed, any
other frame is reported and changes nothing, and no exception escapes the handler. What comes of an
execution is not part of this: that of `toggle_node` for the only active node may stop. -/
inductive Total (frame : List UInt8) : Handled F → Prop
  | executed {command payload : String} {call : Command F} : Splits frame command payload →
      Expects strtof self command payload call →
      Total frame (.executed call (execute asserts numLocalities self call))
  | reported {command payload : String} :
      (∀ before after call, Splits frame before after → ¬ Expects strtof self before after call) →
      Total frame (.reported command payload self)

/-- A frame has a blank, and its payload is the id of a locality or a number if its command expects
that. -/
def WellFormed (frame : List UInt8) : Prop :=
  ∃ command payload, Splits frame command payload ∧
    (command = "toggle_node" → ∃ localityId : Nat, Number strtol payload localityId ∧
      localityId < self.scheduler.optimizer.activeNodes.length) ∧
    (command = "set_speed" ∨ command = "set_efficiency" ∨ command = "set_power" →
      ∃ exp, Number strtof payload exp)

variable {strtof asserts numLocalities self} {frame before after : List UInt8}
  {command payload command' payload' : String} {call : Command F}

/-- A frame with a blank is split where `std::find` finds the first one. -/
theorem splits_iff : Splits frame command payload ↔ 32 ∈ frame ∧
    command = text (frame.take (frame.idxOf 32)) ∧
      payload = text (frame.drop (frame.idxOf 32 + 1)) := by
  have found {before after : List UInt8} (blank : 32 ∉ before) :
      (before ++ 32 :: after).take ((before ++ 32 :: after).idxOf 32) = before ∧
        (before ++ 32 :: after).drop ((before ++ 32 :: after).idxOf 32 + 1) = after := by
    have place : (before ++ 32 :: after).idxOf 32 = before.length := by
      rw [List.idxOf_append, if_neg blank, List.idxOf_cons_self, Nat.zero_add]
    rw [place, List.take_left, ← List.drop_drop, List.drop_left]
    exact ⟨rfl, rfl⟩
  constructor
  · rintro ⟨before, after, rfl, blank, rfl, rfl⟩
    rw [(found blank).1, (found blank).2]
    exact ⟨List.mem_append_right _ List.mem_cons_self, rfl, rfl⟩
  · rintro ⟨mem, rfl, rfl⟩
    obtain ⟨before, after, rfl, blank⟩ := List.eq_append_cons_of_mem mem
    rw [(found blank).1, (found blank).2]
    exact ⟨before, after, rfl, blank, rfl, rfl⟩

/-- A frame is split in one way only. -/
theorem Splits.eq (splits : Splits frame command payload) (other : Splits frame command' payload') :
    command' = command ∧ payload' = payload := by
  obtain ⟨-, first, second⟩ := splits_iff.mp splits
  obtain ⟨-, first', second'⟩ := splits_iff.mp other
  exact ⟨first'.trans first.symm, second'.trans second.symm⟩

/-- A frame that is split is handled by its command and its payload. -/
theorem handleCommand_of_splits (splits : Splits frame command payload) :
    handleCommand strtof asserts numLocalities self frame =
      dispatch strtof asserts numLocalities self command payload := by
  obtain ⟨mem, rfl, rfl⟩ := splits_iff.mp splits
  exact if_neg (List.idxOf_lt_length_of_mem mem).ne

/-- The payload of a frame without a blank is not in the frame. -/
theorem handleCommand_of_not_mem (blank : 32 ∉ frame) :
    handleCommand strtof asserts numLocalities self frame = .outside :=
  if_pos (List.idxOf_eq_length blank)

/-- A command is executed well if it expects its payload. -/
theorem Splits.total_executed_iff (splits : Splits frame command payload) :
    Total strtof asserts numLocalities self frame
      (.executed call (execute asserts numLocalities self call)) ↔
        Expects strtof self command payload call := by
  constructor
  · intro total
    generalize result : Handled.executed call _ = handled at total
    cases total with
    | executed other expects =>
      cases result
      obtain ⟨rfl, rfl⟩ := splits.eq other
      exact expects
    | reported => cases result
  · exact Total.executed splits

/-- Where a command expects the numbers of a kind that its payload is converted to, it is handled
well if and only if the payload is such a number. -/
theorem Splits.total_executeWith_iff {α : Type} {convert : Conversion α} {call : α → Command F}
    (Kind : α → Prop) (splits : Splits frame command payload)
    (expects : ∀ value, sto convert payload = .ok value →
      (Expects strtof self command payload (call value) ↔
        Number convert payload value ∧ Kind value)) :
    Total strtof asserts numLocalities self frame
      (executeWith asserts numLocalities self (sto convert payload) call) ↔
        ∃ value, Number convert payload value ∧ Kind value := by
  constructor
  · intro total
    cases converted : sto convert payload with
    | error exception =>
      rw [converted] at total
      cases total
    | ok value =>
      rw [converted] at total
      exact ⟨value, (expects value converted).mp (splits.total_executed_iff.mp total)⟩
  · rintro ⟨value, number, kind⟩
    rw [number.sto_eq]
    exact splits.total_executed_iff.mpr ((expects value number.sto_eq).mpr ⟨number, kind⟩)

/-- `toggle_node` expects the ids of localities. -/
theorem expects_toggleNode_iff {value : Int} (converted : sto strtol payload = .ok value) :
    Expects strtof self "toggle_node" payload (.toggleNode (value % 2 ^ 64).toNat) ↔
      Number strtol payload value ∧ ∃ localityId : Nat, value = localityId ∧
        localityId < self.scheduler.optimizer.activeNodes.length := by
  constructor
  · intro expects
    generalize "toggle_node" = command at expects
    generalize same : (value % 2 ^ 64).toNat = localityId at expects
    cases expects with
    | toggleNode number inRange =>
      have equal := number.sto_eq.symm.trans converted
      cases equal
      exact ⟨number, _, rfl, inRange⟩
  · rintro ⟨number, localityId, rfl, inRange⟩
    have less := strtol_lt number
    have same : ((localityId : Int) % 2 ^ 64).toNat = localityId := by omega
    rw [same]
    exact .toggleNode number inRange

/-- A frame that is split is well-formed if its payload is what its command expects. -/
theorem Splits.wellFormed_iff (splits : Splits frame command payload) :
    WellFormed strtof self frame ↔
      (command = "toggle_node" → ∃ localityId : Nat, Number strtol payload localityId ∧
        localityId < self.scheduler.optimizer.activeNodes.length) ∧
      (command = "set_speed" ∨ command = "set_efficiency" ∨ command = "set_power" →
        ∃ exp, Number strtof payload exp) := by
  constructor
  · rintro ⟨command', payload', other, valid⟩
    obtain ⟨rfl, rfl⟩ := splits.eq other
    exact valid
  · exact fun valid => ⟨command, payload, splits, valid⟩

/-- The commands of exponents expect numbers. -/
theorem Expects.number {exp : F} (expects : Expects strtof self command payload call)
    (exponent : call = .setSpeedExponent exp ∨ call = .setEfficiencyExponent exp ∨
      call = .setPowerExponent exp) : Number strtof payload exp := by
  cases expects with
  | setScheduler => rcases exponent with same | same | same <;> cases same
  | toggleNode _ _ => rcases exponent with same | same | same <;> cases same
  | setSpeed number =>
    rcases exponent with same | same | same <;> cases same
    exact number
  | setEfficiency number =>
    rcases exponent with same | same | same <;> cases same
    exact number
  | setPower number =>
    rcases exponent with same | same | same <;> cases same
    exact number

/-- The command of an exponent is handled well if and only if its frame is well-formed. -/
theorem Splits.total_exponent_iff (splits : Splits frame command payload) {call : F → Command F}
    (name : command ≠ "toggle_node")
    (known : command = "set_speed" ∨ command = "set_efficiency" ∨ command = "set_power")
    (exponent : ∀ exp, call exp = .setSpeedExponent exp ∨ call exp = .setEfficiencyExponent exp ∨
      call exp = .setPowerExponent exp)
    (expects : ∀ {exp}, Number strtof payload exp →
      Expects strtof self command payload (call exp)) :
    Total strtof asserts numLocalities self frame
        (executeWith asserts numLocalities self (sto strtof payload) call) ↔
      WellFormed strtof self frame := by
  rw [splits.wellFormed_iff, splits.total_executeWith_iff (fun _ => True) fun exp _ =>
    ⟨fun expected => ⟨expected.number (exponent exp), trivial⟩, fun number => expects number.1⟩]
  constructor
  · rintro ⟨exp, number, -⟩
    exact ⟨fun same => absurd same name, fun _ => ⟨exp, number⟩⟩
  · rintro ⟨-, valid⟩
    obtain ⟨exp, number⟩ := valid known
    exact ⟨exp, number, trivial⟩

/-- A command that is not known is reported. -/
theorem Splits.total_reported (splits : Splits frame command payload)
    (unknown : command ∉ ["set_scheduler", "toggle_node", "set_speed", "set_efficiency",
      "set_power"]) :
    Total strtof asserts numLocalities self frame (.reported command payload self) := by
  refine .reported fun command' payload' call other expects => unknown ?_
  rw [← (splits.eq other).1]
  cases expects <;> simp

/-- A frame is handled well if and only if it has a blank, and its payload is the id of a locality
or a number if its command expects that. -/
theorem handleCommand_total_iff (strtof : Conversion F) (asserts : Bool) (numLocalities : Nat)
    (self : Service F) (frame : List UInt8) :
    Total strtof asserts numLocalities self frame
        (handleCommand strtof asserts numLocalities self frame) ↔
      WellFormed strtof self frame := by
  by_cases blank : 32 ∈ frame
  · have splits : Splits frame _ _ := splits_iff.mpr ⟨blank, rfl, rfl⟩
    rw [handleCommand_of_splits splits]
    generalize text (frame.take (frame.idxOf 32)) = command at splits
    generalize text (frame.drop (frame.idxOf 32 + 1)) = payload at splits
    unfold dispatch
    split
    · rename_i name
      subst name
      rw [splits.wellFormed_iff]
      refine iff_of_true (splits.total_executed_iff.mpr .setScheduler) ⟨?_, ?_⟩
      · exact fun same => absurd same (by decide)
      · exact fun same => absurd same (by decide)
    split
    · rename_i name
      subst name
      rw [splits.wellFormed_iff, splits.total_executeWith_iff _ fun value => expects_toggleNode_iff]
      constructor
      · rintro ⟨value, number, localityId, rfl, inRange⟩
        exact ⟨fun _ => ⟨localityId, number, inRange⟩, fun same => absurd same (by decide)⟩
      · rintro ⟨valid, -⟩
        obtain ⟨localityId, number, inRange⟩ := valid rfl
        exact ⟨localityId, number, localityId, rfl, inRange⟩
    rename_i noPolicy noNode
    split
    · rename_i name
      subst name
      exact splits.total_exponent_iff noNode (.inl rfl) (fun _ => .inl rfl) .setSpeed
    split
    · rename_i name
      subst name
      exact splits.total_exponent_iff noNode (.inr (.inl rfl)) (fun _ => .inr (.inl rfl))
        .setEfficiency
    split
    · rename_i name
      subst name
      exact splits.total_exponent_iff noNode (.inr (.inr rfl)) (fun _ => .inr (.inr rfl)) .setPower
    rename_i noSpeed noEfficiency noPower
    refine iff_of_true (splits.total_reported ?_) (splits.wellFormed_iff.mpr ⟨?_, ?_⟩)
    · simp [noPolicy, noNode, noSpeed, noEfficiency, noPower]
    · exact fun same => absurd same noNode
    · simp [noSpeed, noEfficiency, noPower]
  · rw [handleCommand_of_not_mem blank]
    refine iff_of_false nofun ?_
    rintro ⟨command, payload, splits, -⟩
    exact blank (splits_iff.mp splits).1

end Handler

/-- No command changes the number of nodes, so the ids that are in range stay so. -/
theorem ensures_length_execute (asserts : Bool) (numLocalities : Nat) (self : Service F)
    (command : Command F) : Ensures (fun _ => True)
      (fun after => after.scheduler.optimizer.activeNodes.length =
        self.scheduler.optimizer.activeNodes.length)
      (execute asserts numLocalities self command) := by
  cases command with
  | setPolicy policy =>
    have chosen : Ensures (fun _ => True) (fun after : PolicyService =>
        after.optimizer.activeNodes.length = self.scheduler.optimizer.activeNodes.length)
        (self.scheduler.setPolicyIn asserts numLocalities policy) := by
      unfold PolicyService.setPolicyIn
      cases createPolicyIn asserts numLocalities policy with
      | ok policy => exact List.length_replicate
      | error stop => trivial
    exact chosen.bind fun after same => same
  | toggleNode localityId =>
    have switched : Ensures (fun _ => True) (fun after : PolicyService =>
        after.optimizer.activeNodes.length = self.scheduler.optimizer.activeNodes.length)
        (self.scheduler.toggleNodeIn asserts localityId) := by
      have same : (self.scheduler.optimizer.activeNodes.modify localityId not).length =
          self.scheduler.optimizer.activeNodes.length := List.length_modify ..
      unfold PolicyService.toggleNodeIn
      refine .ite (fun _ => .throw trivial) fun _ => ?_
      dsimp only
      cases SchedulingPolicy.createUniformIn asserts
        (self.scheduler.optimizer.activeNodes.modify localityId not) with
      | ok policy => exact .ite (fun _ => same) fun _ => same
      | error stop => trivial
    exact switched.bind fun after same => same
  | setSpeedExponent exp => exact rfl
  | setEfficiencyExponent exp => exact rfl
  | setPowerExponent exp => exact rfl

/-- The bytes of a string. -/
def bytes (str : String) : List UInt8 := str.toList.map fun c => UInt8.ofNat c.toNat

/-- The service of a locality with another one, both of them active. -/
def twoNodes : Service Int where
  scheduler := ⟨⟨.random, SchedulingPolicy.createRandom 2⟩, true, ⟨[true, true], 0⟩⟩
  objective := ⟨1, 1, 1⟩

/-- A frame without a blank and one without a number are not handled well. -/
theorem not_total :
    ¬ Total strtol true 2 twoNodes (bytes "quit")
        (handleCommand strtol true 2 twoNodes (bytes "quit")) ∧
      ¬ Total strtol true 2 twoNodes (bytes "toggle_node x")
        (handleCommand strtol true 2 twoNodes (bytes "toggle_node x")) := by
  constructor
  · rw [handleCommand_of_not_mem (by decide)]
    exact nofun
  · have split : Splits (bytes "toggle_node x") "toggle_node" "x" :=
      ⟨bytes "toggle_node", bytes "x", by decide, by decide, by decide, by decide⟩
    rw [handleCommand_of_splits split]
    exact nofun

end Dashboard

end AllScale
