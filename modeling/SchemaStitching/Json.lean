/-! JSON values.  The members of an object have distinct names; their order carries no meaning. -/

namespace SchemaStitching

/-- A JSON value. -/
inductive Json where
  | null
  | bool (value : Bool)
  /-- A number without a fraction or an exponent. -/
  | int (value : Int)
  /-- A number written with a fraction or an exponent: `digits` times ten to the `exponent`. -/
  | decimal (digits exponent : Int)
  | string (value : String)
  | array (items : List Json)
  | object (members : List (String × Json))
  deriving Inhabited

namespace Json

/-- The value of the member of the given name. -/
def member? (members : List (String × Json)) (name : String) : Option Json :=
  members.lookup name

mutual

/-- Whether two values are the same, their members in the same order. -/
def decEq : (a b : Json) → Decidable (a = b)
  | .null, .null => isTrue rfl
  | .bool a, .bool b => decidable_of_iff (a = b) (by simp)
  | .int a, .int b => decidable_of_iff (a = b) (by simp)
  | .decimal a m, .decimal b n => decidable_of_iff (a = b ∧ m = n) (by simp)
  | .string a, .string b => decidable_of_iff (a = b) (by simp)
  | .array as, .array bs =>
    have := decEqItems as bs
    decidable_of_iff (as = bs) (by simp)
  | .object as, .object bs =>
    have := decEqMembers as bs
    decidable_of_iff (as = bs) (by simp)
  | .null, .bool _ | .null, .int _ | .null, .decimal .. | .null, .string _ | .null, .array _
  | .null, .object _ | .bool _, .null | .bool _, .int _ | .bool _, .decimal ..
  | .bool _, .string _ | .bool _, .array _ | .bool _, .object _ | .int _, .null
  | .int _, .bool _ | .int _, .decimal .. | .int _, .string _ | .int _, .array _
  | .int _, .object _ | .decimal .., .null | .decimal .., .bool _ | .decimal .., .int _
  | .decimal .., .string _ | .decimal .., .array _ | .decimal .., .object _
  | .string _, .null | .string _, .bool _ | .string _, .int _ | .string _, .decimal ..
  | .string _, .array _ | .string _, .object _ | .array _, .null | .array _, .bool _
  | .array _, .int _ | .array _, .decimal .. | .array _, .string _ | .array _, .object _
  | .object _, .null | .object _, .bool _ | .object _, .int _ | .object _, .decimal ..
  | .object _, .string _ | .object _, .array _ => isFalse nofun

def decEqItems : (as bs : List Json) → Decidable (as = bs)
  | [], [] => isTrue rfl
  | a :: as, b :: bs =>
    have := decEq a b
    have := decEqItems as bs
    decidable_of_iff (a = b ∧ as = bs) (by simp)
  | [], _ :: _ | _ :: _, [] => isFalse nofun

def decEqMembers : (as bs : List (String × Json)) → Decidable (as = bs)
  | [], [] => isTrue rfl
  | (m, a) :: as, (n, b) :: bs =>
    have := decEq a b
    have := decEqMembers as bs
    decidable_of_iff ((m = n ∧ a = b) ∧ as = bs) (by simp)
  | [], _ :: _ | _ :: _, [] => isFalse nofun

end

instance : DecidableEq Json := decEq

end Json

end SchemaStitching
