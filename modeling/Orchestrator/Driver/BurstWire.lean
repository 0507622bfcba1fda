import Orchestrator.Lib.Codec
import Orchestrator.Services.Types

/-! # Driver — Bursts on the wire

The conversions of a burst with its provenance to the messages of the input synthesizer and
back. What the external message definitions fix is left open: the format version, the numbers of
the generator kinds, and the order a hash map is iterated in. Floats are opaque.

* `provenance_inverse`, `burst_back`, `burst_again`: the two halves of a message.
* `burst_codec`: the conversions undo each other.
-/

namespace Orchestrator.Driver

open Lib
open Services (ClientError ClientErrorKind)

/-- `f64` and the finite values among it: `get` is a plain field access, and `new` gives a value
that was read with `get` back. -/
class FiniteFloat (R : Type) (V : outParam Type) where
  get : V → R
  new : R → Option V
  /-- `{}` of a float. -/
  display : R → String
  new_get : ∀ v, new (get v) = some v

abbrev Octets := List UInt8

abbrev StringMap := Std.ExtTreeMap String String

inductive GeneratorKind where
  | weightedRandom | macroPack | mutation | policy
deriving DecidableEq, Repr

/-! ### Messages -/

namespace Wire

inductive GeneratorKind where
  | unspecified | weightedRandom | macroPack | mutation | policy
deriving DecidableEq, Repr

/-- A hash map, as the entries in the order of its iteration. -/
abbrev HashMap := List (String × String)

structure PadSegment where
  buttons : UInt32
  holdFrames : UInt32

structure PadBurst where
  segments : List PadSegment
  buttonAlphabet : String

inductive Value where
  | intVal (value : Int64)
  | enumVal (value : String)
  | durNs (value : UInt64)
  | bytesVal (value : Octets)

structure FieldValue where
  value : Option Value

structure GrammarField where
  name : String
  value : Option FieldValue

structure GrammarEvent where
  eventType : String
  atOffsetNs : UInt64
  fields : List GrammarField
  payload : Octets

structure EventBurst where
  events : List GrammarEvent
  grammarId : String

inductive Body where
  | pad (burst : PadBurst)
  | event (burst : EventBurst)

structure Burst where
  formatVersion : UInt32
  body : Option Body
  burstId : Octets

structure MacroProvenance where
  packId : String
  macroName : String
  paramBindings : HashMap
  macroFrames : UInt32
  tailFrames : UInt32
  chainIndex : UInt32

structure MutationOp where
  op : String
  args : HashMap

structure MutationProvenance where
  baseBurstId : Octets
  donorBurstId : Octets
  baseWasSibling : Bool
  ops : List MutationOp
  postClamp : Bool

structure PolicyProvenance (R : Type) where
  modelId : String
  modelVersion : String
  temperature : R
  serverAttestedDeterministic : Bool

structure Provenance (R : Type) where
  generator : Int32
  slot : UInt32
  rngStream : String
  configFingerprint : Octets
  fallbackFrom : Int32
  macroPack : Option MacroProvenance
  mutation : Option MutationProvenance
  policy : Option (PolicyProvenance R)

structure ProvenancedBurst (R : Type) where
  burst : Option Burst
  provenance : Option (Provenance R)

end Wire

/-! ### Bursts and provenances -/

/-- An array of a fixed number of bytes. -/
abbrev FixedBytes (n : Nat) := { bytes : Octets // bytes.length = n }

def burstIdLen : Nat := 32

def configFingerprintLen : Nat := 32

structure FrameCount where
  get : UInt32

structure PadSegment where
  buttons : UInt32
  holdFrames : FrameCount

structure PadBurst where
  segments : List PadSegment
  buttonAlphabet : String

inductive FieldValue where
  | int (value : Int64)
  | enum (value : String)
  | durationNs (value : UInt64)
  | bytes (value : Octets)

structure GrammarField where
  name : String
  value : FieldValue

structure GrammarEvent where
  eventType : String
  atOffsetNs : UInt64
  fields : List GrammarField
  payload : Octets

structure EventBurst where
  events : List GrammarEvent
  grammarId : String

inductive BurstBody where
  | pad (burst : PadBurst)
  | event (burst : EventBurst)

structure Burst where
  formatVersion : UInt32
  burstId : FixedBytes burstIdLen
  body : BurstBody

structure MacroProvenance where
  packId : String
  macroName : String
  paramBindings : StringMap
  macroFrames : FrameCount
  tailFrames : FrameCount
  chainIndex : UInt32

structure MutationOp where
  op : String
  args : StringMap

structure MutationProvenance where
  baseBurstId : Octets
  donorBurstId : Octets
  baseWasSibling : Bool
  ops : List MutationOp
  postClamp : Bool

structure PolicyProvenance (V : Type) where
  modelId : String
  modelVersion : String
  temperature : V
  serverAttestedDeterministic : Bool

structure Provenance (V : Type) where
  generator : GeneratorKind
  slot : UInt32
  rngStream : String
  configFingerprint : FixedBytes configFingerprintLen
  fallbackFrom : Option GeneratorKind
  macroProvenance : Option MacroProvenance
  mutationProvenance : Option MutationProvenance
  policyProvenance : Option (PolicyProvenance V)

structure ProvenancedBurst (V : Type) where
  burst : Burst
  provenance : Provenance V

/-! ### What the message definitions fix -/

/-- The parts of the external definitions the conversions use. -/
structure Proto where
  burstFormatVersion : UInt32
  generatorKind : Enumeration Wire.GeneratorKind Int32
  /-- The order of the entries of a hash map that was collected from some. -/
  iteration : List (String × String) → Wire.HashMap
  iteration_perm : ∀ entries, (iteration entries).Perm entries

/-! ### Shared checks -/

def dataLoss (detail : String) : ClientError := .new .dataLoss detail

/-- The value of a message field that must be set. -/
def required {α : Type} (detail : String) : Option α → Except ClientError α
  | none => .error (dataLoss detail)
  | some a => .ok a

/-- `fixed_bytes`. -/
def fixedBytes (n : Nat) (bytes : Octets) (kind : ClientErrorKind) (field : String) :
    Except ClientError (FixedBytes n) :=
  if h : bytes.length = n then .ok ⟨bytes, h⟩
  else
    let len := bytes.length
    .error (.new kind s!"{field} must be exactly {n} bytes, got {len}")

/-- `validate_mutation_ids`. -/
def validateMutationIds (base donor : Octets) (kind : ClientErrorKind) :
    Except ClientError Unit := do
  let _ ← fixedBytes burstIdLen base kind "MutationProvenance.base_burst_id"
  if donor = [] then return ()
  else
    let _ ← fixedBytes burstIdLen donor kind "MutationProvenance.donor_burst_id"
    return ()

/-- `{:?}` of a generator kind. -/
def GeneratorKind.debug : GeneratorKind → String
  | .weightedRandom => "WeightedRandom"
  | .macroPack => "Macro"
  | .mutation => "Mutation"
  | .policy => "Policy"

variable {R V : Type}

/-- The payload a generator calls for. -/
def GeneratorKind.expectedPayload : GeneratorKind → Option String
  | .weightedRandom => none
  | .macroPack => some "macro"
  | .mutation => some "mutation"
  | .policy => some "policy"

/-- `validate_provenance_payloads`. -/
def validateProvenancePayloads (p : Provenance V) (kind : ClientErrorKind) :
    Except ClientError Unit :=
  let macroSet := p.macroProvenance.isSome
  let mutationSet := p.mutationProvenance.isSome
  let policySet := p.policyProvenance.isSome
  let actualCount := macroSet.toNat + mutationSet.toNat + policySet.toNat
  let name := p.generator.debug
  match p.generator.expectedPayload with
  | none =>
    if actualCount = 0 then .ok ()
    else .error (.new kind
      "weighted-random provenance must not include generator-specific payloads")
  | some expected =>
    if actualCount ≠ 1 then .error (.new kind
      s!"{name} provenance must include exactly one matching generator payload")
    else
      let payloadMatches := match p.generator with
        | .weightedRandom => true
        | .macroPack => macroSet
        | .mutation => mutationSet
        | .policy => policySet
      if payloadMatches then .ok ()
      else .error (.new kind s!"{name} provenance must include {expected} payload only")

/-! ### Encoding -/

section

variable (proto : Proto)

/-- `dto_generator_kind_to_wire`. -/
def dtoGeneratorKindToWire : GeneratorKind → Wire.GeneratorKind
  | .weightedRandom => .weightedRandom
  | .macroPack => .macroPack
  | .mutation => .mutation
  | .policy => .policy

/-- `dto_to_wire_pad_burst`. -/
def dtoToWirePadBurst (pad : PadBurst) : Wire.PadBurst :=
  ⟨pad.segments.map fun segment => ⟨segment.buttons, segment.holdFrames.get⟩, pad.buttonAlphabet⟩

/-- `dto_to_wire_field_value`. -/
def dtoToWireFieldValue : FieldValue → Wire.FieldValue
  | .int value => ⟨some (.intVal value)⟩
  | .enum value => ⟨some (.enumVal value)⟩
  | .durationNs value => ⟨some (.durNs value)⟩
  | .bytes value => ⟨some (.bytesVal value)⟩

/-- `dto_to_wire_grammar_field`. -/
def dtoToWireGrammarField (field : GrammarField) : Except ClientError Wire.GrammarField :=
  .ok ⟨field.name, some (dtoToWireFieldValue field.value)⟩

/-- `dto_to_wire_grammar_event`. -/
def dtoToWireGrammarEvent (event : GrammarEvent) : Except ClientError Wire.GrammarEvent := do
  let fields ← event.fields.mapM dtoToWireGrammarField
  return ⟨event.eventType, event.atOffsetNs, fields, event.payload⟩

/-- `dto_to_wire_event_burst`. -/
def dtoToWireEventBurst (event : EventBurst) : Except ClientError Wire.EventBurst := do
  let events ← event.events.mapM dtoToWireGrammarEvent
  return ⟨events, event.grammarId⟩

/-- The body in `dto_to_wire_burst`. -/
def dtoToWireBody : BurstBody → Except ClientError Wire.Body
  | .pad pad => .ok (.pad (dtoToWirePadBurst pad))
  | .event event => do return .event (← dtoToWireEventBurst event)

/-- `dto_to_wire_burst`. -/
def dtoToWireBurst (burst : Burst) : Except ClientError Wire.Burst := do
  let body ← dtoToWireBody burst.body
  return ⟨burst.formatVersion, some body, burst.burstId.1⟩

/-- `dto_to_wire_macro_provenance`. -/
def dtoToWireMacroProvenance (p : MacroProvenance) : Wire.MacroProvenance :=
  ⟨p.packId, p.macroName, proto.iteration p.paramBindings.toList, p.macroFrames.get,
    p.tailFrames.get, p.chainIndex⟩

/-- `dto_to_wire_mutation_op`. -/
def dtoToWireMutationOp (op : MutationOp) : Wire.MutationOp :=
  ⟨op.op, proto.iteration op.args.toList⟩

/-- `dto_to_wire_mutation_provenance`. -/
def dtoToWireMutationProvenance (p : MutationProvenance) :
    Except ClientError Wire.MutationProvenance := do
  validateMutationIds p.baseBurstId p.donorBurstId .invalidRequest
  return ⟨p.baseBurstId, p.donorBurstId, p.baseWasSibling,
    p.ops.map (dtoToWireMutationOp proto), p.postClamp⟩

/-- `dto_to_wire_policy_provenance`. -/
def dtoToWirePolicyProvenance [FiniteFloat R V] (p : PolicyProvenance V) :
    Wire.PolicyProvenance R :=
  ⟨p.modelId, p.modelVersion, FiniteFloat.get p.temperature, p.serverAttestedDeterministic⟩

/-- `dto_to_wire_provenance`. -/
def dtoToWireProvenance [FiniteFloat R V] (p : Provenance V) :
    Except ClientError (Wire.Provenance R) := do
  validateProvenancePayloads p .invalidRequest
  let mutation ← p.mutationProvenance.mapM (dtoToWireMutationProvenance proto)
  return {
    generator := proto.generatorKind.number (dtoGeneratorKindToWire p.generator)
    slot := p.slot
    rngStream := p.rngStream
    configFingerprint := p.configFingerprint.1
    fallbackFrom :=
      proto.generatorKind.number ((p.fallbackFrom.map dtoGeneratorKindToWire).getD .unspecified)
    macroPack := p.macroProvenance.map (dtoToWireMacroProvenance proto)
    mutation := mutation
    policy := p.policyProvenance.map dtoToWirePolicyProvenance }

/-- `dto_to_wire_provenanced_burst`. -/
def dtoToWireProvenancedBurst [FiniteFloat R V] (burst : ProvenancedBurst V) :
    Except ClientError (Wire.ProvenancedBurst R) := do
  let body ← dtoToWireBurst burst.burst
  let provenance ← dtoToWireProvenance proto burst.provenance
  return ⟨some body, some provenance⟩

end

/-! ### Decoding -/

section

variable (proto : Proto)

/-- `wire_generator_kind_to_dto_required`. -/
def wireGeneratorKindToDtoRequired (value : Int32) : Except ClientError GeneratorKind :=
  match proto.generatorKind.tryFrom value with
  | some .weightedRandom => .ok .weightedRandom
  | some .macroPack => .ok .macroPack
  | some .mutation => .ok .mutation
  | some .policy => .ok .policy
  | some .unspecified => .error (dataLoss "GeneratorKind is unspecified")
  | none => .error (dataLoss s!"unknown GeneratorKind enum value {value}")

/-- `wire_generator_kind_to_dto_optional`. -/
def wireGeneratorKindToDtoOptional (value : Int32) : Except ClientError (Option GeneratorKind) :=
  match proto.generatorKind.tryFrom value with
  | some .unspecified => .ok none
  | some .weightedRandom => .ok (some .weightedRandom)
  | some .macroPack => .ok (some .macroPack)
  | some .mutation => .ok (some .mutation)
  | some .policy => .ok (some .policy)
  | none => .error (dataLoss s!"unknown fallback GeneratorKind enum value {value}")

/-- `wire_to_dto_pad_burst`. -/
def wireToDtoPadBurst (pad : Wire.PadBurst) : PadBurst :=
  ⟨pad.segments.map fun segment => ⟨segment.buttons, ⟨segment.holdFrames⟩⟩, pad.buttonAlphabet⟩

/-- `wire_to_dto_field_value`. -/
def wireToDtoFieldValue (value : Wire.FieldValue) : Except ClientError FieldValue := do
  match ← required "FieldValue.value oneof is unset" value.value with
  | .intVal value => return .int value
  | .enumVal value => return .enum value
  | .durNs value => return .durationNs value
  | .bytesVal value => return .bytes value

/-- `wire_to_dto_grammar_field`. -/
def wireToDtoGrammarField (field : Wire.GrammarField) : Except ClientError GrammarField := do
  let value ← required "GrammarField.value is missing" field.value
  return ⟨field.name, ← wireToDtoFieldValue value⟩

/-- `wire_to_dto_grammar_event`. -/
def wireToDtoGrammarEvent (event : Wire.GrammarEvent) : Except ClientError GrammarEvent := do
  let fields ← event.fields.mapM wireToDtoGrammarField
  return ⟨event.eventType, event.atOffsetNs, fields, event.payload⟩

/-- `wire_to_dto_event_burst`. -/
def wireToDtoEventBurst (event : Wire.EventBurst) : Except ClientError EventBurst := do
  let events ← event.events.mapM wireToDtoGrammarEvent
  return ⟨events, event.grammarId⟩

/-- The body in `wire_to_dto_burst`. -/
def wireToDtoBody : Wire.Body → Except ClientError BurstBody
  | .pad pad => .ok (.pad (wireToDtoPadBurst pad))
  | .event event => do return .event (← wireToDtoEventBurst event)

/-- `wire_to_dto_burst`. -/
def wireToDtoBurst (burst : Wire.Burst) : Except ClientError Burst :=
  let version := burst.formatVersion
  let expected := proto.burstFormatVersion
  if version ≠ expected then
    .error (dataLoss s!"burst format_version {version} did not match expected {expected}")
  else do
    let burstId ← fixedBytes burstIdLen burst.burstId .dataLoss "Burst.burst_id"
    let body ← required "Burst.body oneof is unset" burst.body
    return ⟨version, burstId, ← wireToDtoBody body⟩

/-- `wire_to_dto_macro_provenance`. -/
def wireToDtoMacroProvenance (p : Wire.MacroProvenance) : MacroProvenance :=
  ⟨p.packId, p.macroName, .ofList p.paramBindings, ⟨p.macroFrames⟩, ⟨p.tailFrames⟩, p.chainIndex⟩

/-- `wire_to_dto_mutation_op`. -/
def wireToDtoMutationOp (op : Wire.MutationOp) : MutationOp := ⟨op.op, .ofList op.args⟩

/-- `wire_to_dto_mutation_provenance`. -/
def wireToDtoMutationProvenance (p : Wire.MutationProvenance) :
    Except ClientError MutationProvenance := do
  validateMutationIds p.baseBurstId p.donorBurstId .dataLoss
  return ⟨p.baseBurstId, p.donorBurstId, p.baseWasSibling, p.ops.map wireToDtoMutationOp,
    p.postClamp⟩

/-- `finite_f64_response`. -/
def finiteF64Response [FiniteFloat R V] (value : R) (field : String) : Except ClientError V :=
  match FiniteFloat.new value with
  | some v => .ok v
  | none =>
    let shown := FiniteFloat.display value
    .error (dataLoss s!"{field} must be finite: non-finite float value {shown}")

/-- `wire_to_dto_policy_provenance`. -/
def wireToDtoPolicyProvenance [FiniteFloat R V] (p : Wire.PolicyProvenance R) :
    Except ClientError (PolicyProvenance V) := do
  let temperature ← finiteF64Response p.temperature "PolicyProvenance.temperature"
  return ⟨p.modelId, p.modelVersion, temperature, p.serverAttestedDeterministic⟩

/-- `config_fingerprint_from_wire`. -/
def configFingerprintFromWire (bytes : Octets) :
    Except ClientError (FixedBytes configFingerprintLen) :=
  fixedBytes configFingerprintLen bytes .dataLoss "ConfigFingerprint"

/-- `wire_to_dto_provenance`. -/
def wireToDtoProvenance [FiniteFloat R V] (p : Wire.Provenance R) :
    Except ClientError (Provenance V) := do
  let generator ← wireGeneratorKindToDtoRequired proto p.generator
  let configFingerprint ← configFingerprintFromWire p.configFingerprint
  let fallbackFrom ← wireGeneratorKindToDtoOptional proto p.fallbackFrom
  let mutationProvenance ← p.mutation.mapM wireToDtoMutationProvenance
  let policyProvenance ← p.policy.mapM wireToDtoPolicyProvenance
  let dto : Provenance V := {
    generator := generator
    slot := p.slot
    rngStream := p.rngStream
    configFingerprint := configFingerprint
    fallbackFrom := fallbackFrom
    macroProvenance := p.macroPack.map wireToDtoMacroProvenance
    mutationProvenance := mutationProvenance
    policyProvenance := policyProvenance }
  validateProvenancePayloads dto .dataLoss
  return dto

/-- `wire_to_dto_provenanced_burst`. -/
def wireToDtoProvenancedBurst [FiniteFloat R V] (burst : Wire.ProvenancedBurst R) :
    Except ClientError (ProvenancedBurst V) := do
  let body ← required "ProvenancedBurst.burst is missing" burst.burst
  let dtoBurst ← wireToDtoBurst proto body
  let provenance ← required "ProvenancedBurst.provenance is missing" burst.provenance
  return ⟨dtoBurst, ← wireToDtoProvenance proto provenance⟩

end

/-! ### The parts -/

section

variable (proto : Proto)

variable {kind : ClientErrorKind}

variable {n : Nat} {bytes : Octets} {field : String} {burst : Burst} {w : Wire.Burst}

theorem fixedBytes_eq_ok {fixed : FixedBytes n} :
    fixedBytes n bytes kind field = .ok fixed ↔ fixed.1 = bytes := by
  unfold fixedBytes
  split
  · rename_i h
    exact ⟨fun heq => by cases heq; rfl, fun heq => congrArg Except.ok (Subtype.ext heq.symm)⟩
  · rename_i h
    exact ⟨nofun, fun heq => absurd (heq ▸ fixed.2) h⟩

theorem exists_fixedBytes :
    (∃ fixed, fixedBytes n bytes kind field = .ok fixed) ↔ bytes.length = n :=
  ⟨fun ⟨fixed, h⟩ => fixedBytes_eq_ok.mp h ▸ fixed.2, fun h => ⟨⟨bytes, h⟩, dif_pos h⟩⟩

theorem generatorKind_back (kind : GeneratorKind) :
    wireGeneratorKindToDtoRequired proto
      (proto.generatorKind.number (dtoGeneratorKindToWire kind)) =
      .ok kind := by
  rw [wireGeneratorKindToDtoRequired, Enumeration.tryFrom_number]
  cases kind <;> rfl

theorem fallbackFrom_back (kind : Option GeneratorKind) :
    wireGeneratorKindToDtoOptional proto
      (proto.generatorKind.number ((kind.map dtoGeneratorKindToWire).getD .unspecified)) =
        .ok kind := by
  rw [wireGeneratorKindToDtoOptional, Enumeration.tryFrom_number]
  cases kind with
  | none => rfl
  | some kind => cases kind <;> rfl

theorem padBurst_back (pad : PadBurst) : wireToDtoPadBurst (dtoToWirePadBurst pad) = pad := by
  simp [wireToDtoPadBurst, dtoToWirePadBurst, Function.comp_def]

theorem fieldValue_back (value : FieldValue) :
    wireToDtoFieldValue (dtoToWireFieldValue value) = .ok value := by
  cases value <;> rfl

theorem grammarField_inverse : Inverse dtoToWireGrammarField wireToDtoGrammarField := by
  refine ⟨fun {field w} h => ?_, fun _ => ⟨_, rfl⟩⟩
  cases h
  exact bind_eq_ok.mpr ⟨_, rfl, bind_eq_ok.mpr ⟨_, fieldValue_back field.value, rfl⟩⟩

theorem grammarEvent_inverse : Inverse dtoToWireGrammarEvent wireToDtoGrammarEvent := by
  refine ⟨fun {event w} h => ?_, fun {event w} h => ?_⟩
  · obtain ⟨fields, hfields, ⟨⟩⟩ := bind_eq_ok.mp h
    exact bind_eq_ok.mpr ⟨_, grammarField_inverse.list.back hfields, rfl⟩
  · obtain ⟨fields, hfields, ⟨⟩⟩ := bind_eq_ok.mp h
    obtain ⟨fields', hfields'⟩ := grammarField_inverse.list.again hfields
    exact ⟨_, bind_eq_ok.mpr ⟨fields', hfields', rfl⟩⟩

theorem eventBurst_inverse : Inverse dtoToWireEventBurst wireToDtoEventBurst := by
  refine ⟨fun {event w} h => ?_, fun {event w} h => ?_⟩
  · obtain ⟨events, hevents, ⟨⟩⟩ := bind_eq_ok.mp h
    exact bind_eq_ok.mpr ⟨_, grammarEvent_inverse.list.back hevents, rfl⟩
  · obtain ⟨events, hevents, ⟨⟩⟩ := bind_eq_ok.mp h
    obtain ⟨events', hevents'⟩ := grammarEvent_inverse.list.again hevents
    exact ⟨_, bind_eq_ok.mpr ⟨events', hevents', rfl⟩⟩

/-! ### The burst -/

theorem body_inverse : Inverse dtoToWireBody wireToDtoBody := by
  refine ⟨fun {body w} h => ?_, fun {body w} h => ?_⟩
  · cases body with
    | pad pad =>
      cases h
      exact congrArg (Except.ok ∘ BurstBody.pad) (padBurst_back pad)
    | event event =>
      obtain ⟨wireEvent, hevent, ⟨⟩⟩ := bind_eq_ok.mp h
      exact bind_eq_ok.mpr ⟨event, eventBurst_inverse.back hevent, rfl⟩
  · cases w with
    | pad pad =>
      cases h
      exact ⟨_, rfl⟩
    | event wireEvent =>
      obtain ⟨event, hevent, ⟨⟩⟩ := bind_eq_ok.mp h
      obtain ⟨wireEvent', hevent'⟩ := eventBurst_inverse.again hevent
      exact ⟨_, bind_eq_ok.mpr ⟨wireEvent', hevent', rfl⟩⟩

theorem burst_back (hversion : burst.formatVersion = proto.burstFormatVersion)
    (h : dtoToWireBurst burst = .ok w) : wireToDtoBurst proto w = .ok burst := by
  obtain ⟨body, hbody, ⟨⟩⟩ := bind_eq_ok.mp h
  rw [wireToDtoBurst, if_neg (not_not.mpr hversion)]
  refine bind_eq_ok.mpr ⟨burst.burstId, fixedBytes_eq_ok.mpr rfl, ?_⟩
  exact bind_eq_ok.mpr ⟨body, rfl, bind_eq_ok.mpr ⟨_, body_inverse.back hbody, rfl⟩⟩

theorem burst_again (h : wireToDtoBurst proto w = .ok burst) :
    burst.formatVersion = proto.burstFormatVersion ∧ ∃ w', dtoToWireBurst burst = .ok w' := by
  rw [wireToDtoBurst] at h
  split at h
  · cases h
  · rename_i hversion
    obtain ⟨id, -, h⟩ := bind_eq_ok.mp h
    obtain ⟨body, -, h⟩ := bind_eq_ok.mp h
    obtain ⟨dtoBody, hbody, ⟨⟩⟩ := bind_eq_ok.mp h
    obtain ⟨body', hbody'⟩ := body_inverse.again hbody
    exact ⟨not_not.mp hversion, _, bind_eq_ok.mpr ⟨body', hbody', rfl⟩⟩

/-! ### The provenance -/

theorem macroProvenance_back (p : MacroProvenance) :
    wireToDtoMacroProvenance (dtoToWireMacroProvenance proto p) = p := by
  simp only [wireToDtoMacroProvenance, dtoToWireMacroProvenance]
  rw [ofList_of_perm _ (proto.iteration_perm _)]

theorem mutationOp_back (op : MutationOp) :
    wireToDtoMutationOp (dtoToWireMutationOp proto op) = op := by
  simp only [wireToDtoMutationOp, dtoToWireMutationOp]
  rw [ofList_of_perm _ (proto.iteration_perm _)]

/-- The ids of a mutation are checked alike on both sides. -/
theorem validateMutationIds_eq_ok {base donor : Octets} :
    validateMutationIds base donor kind = .ok () ↔
      base.length = burstIdLen ∧ (donor = [] ∨ donor.length = burstIdLen) := by
  have hbase : (∃ fixed, fixedBytes burstIdLen base kind "MutationProvenance.base_burst_id" =
      .ok fixed) ↔ base.length = burstIdLen := exists_fixedBytes
  rw [validateMutationIds, bind_eq_ok, ← hbase]
  split
  · rename_i hdonor
    exact ⟨fun ⟨fixed, h, _⟩ => ⟨⟨fixed, h⟩, .inl hdonor⟩, fun ⟨⟨fixed, h⟩, _⟩ => ⟨fixed, h, rfl⟩⟩
  · rename_i hdonor
    constructor
    · rintro ⟨fixed, h, hrest⟩
      obtain ⟨fixed', h', -⟩ := bind_eq_ok.mp hrest
      exact ⟨⟨fixed, h⟩, .inr (exists_fixedBytes.mp ⟨fixed', h'⟩)⟩
    · rintro ⟨⟨fixed, h⟩, hlen⟩
      obtain ⟨fixed', h'⟩ := exists_fixedBytes.mpr (hlen.resolve_left hdonor)
      exact ⟨fixed, h, bind_eq_ok.mpr ⟨fixed', h', rfl⟩⟩

theorem mutationProvenance_inverse :
    Inverse (dtoToWireMutationProvenance proto) wireToDtoMutationProvenance := by
  refine ⟨fun {p w} h => ?_, fun {p w} h => ?_⟩
  · obtain ⟨_, hids, ⟨⟩⟩ := bind_eq_ok.mp h
    have hlen := validateMutationIds_eq_ok.mp hids
    refine bind_eq_ok.mpr ⟨(), validateMutationIds_eq_ok.mpr hlen, ?_⟩
    show Except.ok _ = _
    simp only [List.map_map, Function.comp_def, mutationOp_back, List.map_id']
  · obtain ⟨_, hids, ⟨⟩⟩ := bind_eq_ok.mp h
    have hlen := validateMutationIds_eq_ok.mp hids
    exact ⟨_, bind_eq_ok.mpr ⟨(), validateMutationIds_eq_ok.mpr hlen, rfl⟩⟩

theorem policyProvenance_back [FiniteFloat R V] (p : PolicyProvenance V) :
    wireToDtoPolicyProvenance (dtoToWirePolicyProvenance (R := R) p) = .ok p := by
  refine bind_eq_ok.mpr ⟨p.temperature, ?_, rfl⟩
  show finiteF64Response (FiniteFloat.get p.temperature) _ = _
  rw [finiteF64Response, FiniteFloat.new_get]

/-- A provenance has the payload of its generator and no other. -/
def Provenance.Legal (p : Provenance V) : Prop :=
  (p.macroProvenance.isSome = true ↔ p.generator = .macroPack) ∧
  (p.mutationProvenance.isSome = true ↔ p.generator = .mutation) ∧
  (p.policyProvenance.isSome = true ↔ p.generator = .policy)

/-- The payloads are checked alike on both sides. -/
theorem validateProvenancePayloads_eq_ok {p : Provenance V} :
    validateProvenancePayloads p kind = .ok () ↔ p.Legal := by
  unfold validateProvenancePayloads Provenance.Legal
  cases p.generator <;> cases p.macroProvenance.isSome <;> cases p.mutationProvenance.isSome <;>
    cases p.policyProvenance.isSome <;> simp [GeneratorKind.expectedPayload]

theorem mapM_policy_back [FiniteFloat R V] (policy : Option (PolicyProvenance V)) :
    (policy.map (dtoToWirePolicyProvenance (R := R))).mapM wireToDtoPolicyProvenance =
      .ok policy := by
  cases policy with
  | none => rfl
  | some p => exact bind_eq_ok.mpr ⟨p, policyProvenance_back p, rfl⟩

theorem map_macro_back (m : Option MacroProvenance) :
    (m.map (dtoToWireMacroProvenance proto)).map wireToDtoMacroProvenance = m := by
  cases m with
  | none => rfl
  | some p => exact congrArg some (macroProvenance_back proto p)

/-- **The provenance.** -/
theorem provenance_inverse [FiniteFloat R V] :
    Inverse (dtoToWireProvenance (R := R) (V := V) proto) (wireToDtoProvenance proto) := by
  refine ⟨fun {p w} h => ?_, fun {p w} h => ?_⟩
  · obtain ⟨_, hvalid, h⟩ := bind_eq_ok.mp h
    obtain ⟨mutation, hmutation, ⟨⟩⟩ := bind_eq_ok.mp h
    refine bind_eq_ok.mpr ⟨_, generatorKind_back proto p.generator, ?_⟩
    refine bind_eq_ok.mpr ⟨p.configFingerprint, fixedBytes_eq_ok.mpr rfl, ?_⟩
    refine bind_eq_ok.mpr ⟨_, fallbackFrom_back proto p.fallbackFrom, ?_⟩
    refine bind_eq_ok.mpr ⟨_, (mutationProvenance_inverse proto).option.back hmutation, ?_⟩
    refine bind_eq_ok.mpr ⟨_, mapM_policy_back p.policyProvenance, ?_⟩
    have hlegal := validateProvenancePayloads_eq_ok.mp hvalid
    simp only [map_macro_back]
    exact bind_eq_ok.mpr ⟨(), validateProvenancePayloads_eq_ok.mpr hlegal, rfl⟩
  · obtain ⟨generator, -, h⟩ := bind_eq_ok.mp h
    obtain ⟨fingerprint, -, h⟩ := bind_eq_ok.mp h
    obtain ⟨fallback, -, h⟩ := bind_eq_ok.mp h
    obtain ⟨mutation, hmutation, h⟩ := bind_eq_ok.mp h
    obtain ⟨policy, -, h⟩ := bind_eq_ok.mp h
    obtain ⟨_, hvalid, ⟨⟩⟩ := bind_eq_ok.mp h
    obtain ⟨mutation', hmutation'⟩ := (mutationProvenance_inverse proto).option.again hmutation
    have hlegal := validateProvenancePayloads_eq_ok.mp hvalid
    exact ⟨_, bind_eq_ok.mpr ⟨(), validateProvenancePayloads_eq_ok.mpr hlegal,
      bind_eq_ok.mpr ⟨mutation', hmutation', rfl⟩⟩⟩

end

/-- **The burst codec.** A burst of the supported version that is encoded is decoded to itself;
a message that is decoded can be encoded again, and decodes to the same burst; and the encoder
accepts exactly the provenances the decoder can give. -/
theorem burst_codec [FiniteFloat R V] (proto : Proto) :
    (∀ (burst : ProvenancedBurst V) (w : Wire.ProvenancedBurst R),
      burst.burst.formatVersion = proto.burstFormatVersion →
        dtoToWireProvenancedBurst proto burst = .ok w →
          wireToDtoProvenancedBurst proto w = .ok burst) ∧
    (∀ (w : Wire.ProvenancedBurst R) (burst : ProvenancedBurst V),
      wireToDtoProvenancedBurst proto w = .ok burst →
        ∃ w' : Wire.ProvenancedBurst R, dtoToWireProvenancedBurst proto burst = .ok w' ∧
          wireToDtoProvenancedBurst proto w' = .ok burst) ∧
    ∀ p : Provenance V, (∃ w : Wire.Provenance R, dtoToWireProvenance proto p = .ok w) ↔
      ∃ w : Wire.Provenance R, wireToDtoProvenance proto w = .ok p := by
  have hback : ∀ (burst : ProvenancedBurst V) (w : Wire.ProvenancedBurst R),
      burst.burst.formatVersion = proto.burstFormatVersion →
        dtoToWireProvenancedBurst proto burst = .ok w →
          wireToDtoProvenancedBurst proto w = .ok burst := by
    intro burst w hversion h
    obtain ⟨body, hbody, h⟩ := bind_eq_ok.mp h
    obtain ⟨provenance, hprovenance, ⟨⟩⟩ := bind_eq_ok.mp h
    refine bind_eq_ok.mpr ⟨body, rfl, bind_eq_ok.mpr ⟨_, burst_back proto hversion hbody, ?_⟩⟩
    exact bind_eq_ok.mpr ⟨provenance, rfl,
      bind_eq_ok.mpr ⟨_, (provenance_inverse proto).back hprovenance, rfl⟩⟩
  refine ⟨hback, fun w burst h => ?_, (provenance_inverse proto).accepts_iff⟩
  obtain ⟨body, -, h⟩ := bind_eq_ok.mp h
  obtain ⟨dtoBurst, hburst, h⟩ := bind_eq_ok.mp h
  obtain ⟨provenance, -, h⟩ := bind_eq_ok.mp h
  obtain ⟨dtoProvenance, hprovenance, ⟨⟩⟩ := bind_eq_ok.mp h
  obtain ⟨hversion, body', hbody'⟩ := burst_again proto hburst
  obtain ⟨provenance', hprovenance'⟩ := (provenance_inverse proto).again hprovenance
  have hencoded : dtoToWireProvenancedBurst proto ⟨dtoBurst, dtoProvenance⟩ =
      .ok (⟨some body', some provenance'⟩ : Wire.ProvenancedBurst R) :=
    bind_eq_ok.mpr ⟨body', hbody', bind_eq_ok.mpr ⟨provenance', hprovenance', rfl⟩⟩
  exact ⟨_, hencoded, hback _ _ hversion hencoded⟩

/-- Integers, all of them finite. -/
instance : FiniteFloat Int Int := ⟨id, some, toString, fun _ => rfl⟩

def sampleProto : Proto where
  burstFormatVersion := 1
  generatorKind :=
    { values := [.unspecified, .weightedRandom, .macroPack, .mutation, .policy]
      mem_values := by rintro ⟨⟩ <;> decide
      number := fun
        | .unspecified => 0
        | .weightedRandom => 1
        | .macroPack => 2
        | .mutation => 3
        | .policy => 4
      injective := by
        rintro ⟨⟩ ⟨⟩ h <;> first | rfl | exact absurd h (by decide) }
  iteration := List.reverse
  iteration_perm := List.reverse_perm

/-- An event burst of a macro, with parameters. -/
def sampleBurst : ProvenancedBurst Int where
  burst :=
    { formatVersion := 1
      burstId := ⟨List.replicate 32 7, rfl⟩
      body := .event ⟨[⟨"press", 5, [⟨"key", .int 3⟩], [1, 2]⟩], "keys"⟩ }
  provenance :=
    { generator := .macroPack
      slot := 4
      rngStream := "macro/4"
      configFingerprint := ⟨List.replicate 32 9, rfl⟩
      fallbackFrom := some .policy
      macroProvenance := some
        ⟨"core", "dash", .ofList [("speed", "2"), ("direction", "left")], ⟨3⟩, ⟨1⟩, 0⟩
      mutationProvenance := none
      policyProvenance := none }

/-- The burst is encoded and comes back. -/
theorem burst_codec_sample :
    ∃ w : Wire.ProvenancedBurst Int, dtoToWireProvenancedBurst sampleProto sampleBurst = .ok w ∧
      wireToDtoProvenancedBurst sampleProto w = .ok sampleBurst := by
  obtain ⟨w, hw⟩ : ∃ w : Wire.ProvenancedBurst Int,
      dtoToWireProvenancedBurst sampleProto sampleBurst = .ok w := ⟨_, rfl⟩
  exact ⟨w, hw, (burst_codec sampleProto).1 sampleBurst w rfl hw⟩

end Orchestrator.Driver
