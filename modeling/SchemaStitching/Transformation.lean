import SchemaStitching.Event
import SchemaStitching.Hashing
import SchemaStitching.Provenance

/-! Transformations: what a field carries that its service cannot answer by itself.  A
transformation holds exactly one payload, and two are equal, by `==`, if their payloads are. -/

namespace SchemaStitching

/-- A mapping or a hydration. -/
inductive Payload where
  | mapping (definition : Mapping)
  | hydration (definition : Hydration)
  deriving DecidableEq

namespace Payload

def kind : Payload → TransformationKind
  | .mapping _ => .mapping
  | .hydration _ => .hydration

/-- Where the value comes from: the path of a mapping, or what a hydration calls. -/
def target : Payload → String
  | .mapping definition => definition.path.dotted
  | .hydration definition => definition.target

def mapping? : Payload → Option Mapping
  | .mapping definition => some definition
  | .hydration _ => none

def hydration? : Payload → Option Hydration
  | .mapping _ => none
  | .hydration definition => some definition

/-- What a payload feeds to a hash function. -/
def data : Payload → List Datum
  | .mapping definition => .index 0 :: definition.data
  | .hydration definition => .index 1 :: definition.data

instance : Hashable Payload where
  hash payload := hash payload.data

instance : Coe Mapping Payload := ⟨mapping⟩

instance : Coe Hydration Payload := ⟨hydration⟩

end Payload

/-- An annotation of a field with a mapping or a hydration. -/
structure Transformation where
  payload : Payload
  provenance : Provenance

namespace Transformation

/-- The transformation made of the two optional slots that a reader of documents fills.  Exactly one
of them must be filled. -/
def ofSlots (mapping : Option Mapping) (hydration : Option Hydration) (provenance : Provenance) :
    Logged (Except Fault Transformation) :=
  match mapping, hydration with
  | some mapping, none => { value := .ok ⟨mapping, provenance⟩ }
  | none, some hydration => { value := .ok ⟨hydration, provenance⟩ }
  | none, none => {
      value := .error (.noPayload provenance.location)
      log := [.payloadMissing provenance.location] }
  | some _, some _ => {
      value := .error (.twoPayloads provenance.location)
      log := [.payloadsConflict provenance.location] }

def kind (transformation : Transformation) : TransformationKind :=
  transformation.payload.kind

instance : BEq Transformation where
  beq a b := a.payload == b.payload

/-- What a transformation feeds to a hash function: its payload alone. -/
def data (transformation : Transformation) : List Datum :=
  transformation.payload.data

/-- Hashes of transformations by a function of what they feed to it. -/
abbrev hashedBy (hasher : List Datum → UInt64) : Hashable Transformation where
  hash transformation := hasher transformation.data

instance : Hashable Transformation :=
  hashedBy hash

theorem beq_iff {a b : Transformation} : a == b ↔ a.payload = b.payload :=
  beq_iff_eq (a := a.payload) (b := b.payload)

instance : EquivBEq Transformation where
  rfl := beq_iff.mpr rfl
  symm h := beq_iff.mpr (beq_iff.mp h).symm
  trans h k := beq_iff.mpr ((beq_iff.mp h).trans (beq_iff.mp k))

/-- Equal transformations have equal hashes, whatever their provenance. -/
instance lawfulHashable (hasher : List Datum → UInt64) :
    @LawfulHashable Transformation _ (hashedBy hasher) :=
  letI := hashedBy hasher
  { hash_eq := fun _ _ h => congrArg (fun payload => hasher payload.data) (beq_iff.mp h) }

end Transformation

end SchemaStitching
