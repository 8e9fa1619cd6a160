import Mathlib.Data.List.Forall2
import Mathlib.Logic.Relation
import SchemaStitching.Proofs.Scanning

/-! Spellings of a value in JSON.  A record may be given by an object or an array, members that are
missing may be spelled out, an object may hold members that no one asks for, and a name may stand in
an object of its own.  `Format.Respells` is one such change at any place of a value, and reading
does not notice it.

The content of a union that is given as an object is read leniently, so that names in it may also be
spelled with an empty object.  Such a union has no spelling as an array. -/

namespace SchemaStitching

/-! ### Steps and places -/

/-- The names of the members of a record, each with what stands for the member if it is missing. -/
def Members.blanks : {α : Type} → Members α → List (String × Option Json)
  | _, .none => []
  | _, .required name _ rest => (name, .none) :: rest.blanks
  | _, .optional name _ rest => (name, some .null) :: rest.blanks
  | _, .list name _ _ rest => (name, some (.array [])) :: rest.blanks

/-- The record has a member of the given name at the given place, whose value has the format. -/
inductive Members.Declares : {α β : Type} → Members α → Nat → String → Format β → Prop where
  | required {α β : Type} {name : String} {value : Format α} {rest : Members β} :
    Declares (.required name value rest) 0 name value
  | optional {α β : Type} {name : String} {value : Format α} {rest : Members β} :
    Declares (.optional name value rest) 0 name value
  | list {α β : Type} {name : String} {item : Format α} {keepEmpty : Bool} {rest : Members β} :
    Declares (.list name item keepEmpty rest) 0 name (.list item)
  | afterRequired {α β γ : Type} {other name : String} {first : Format α} {rest : Members β}
    {place : Nat} {value : Format γ} (h : rest.Declares place name value) :
    Declares (.required other first rest) (place + 1) name value
  | afterOptional {α β γ : Type} {other name : String} {first : Format α} {rest : Members β}
    {place : Nat} {value : Format γ} (h : rest.Declares place name value) :
    Declares (.optional other first rest) (place + 1) name value
  | afterList {α β γ : Type} {other name : String} {first : Format α} {keepEmpty : Bool}
    {rest : Members β} {place : Nat} {value : Format γ} (h : rest.Declares place name value) :
    Declares (.list other first keepEmpty rest) (place + 1) name value

/-- The union has contents of the given format under the tag. -/
inductive Format.Tags : {α β : Type} → Format α → String → Format β → Prop where
  | left {α β : Type} {left right : String} {leftContent : Format α} {rightContent : Format β}
    {hne : left ≠ right} : Tags (.union left leftContent right rightContent hne) left leftContent
  | right {α β : Type} {left right : String} {leftContent : Format α} {rightContent : Format β}
    {hne : left ≠ right} : Tags (.union left leftContent right rightContent hne) right rightContent

/-- Whether a value can only be a name where names are read leniently. -/
def Json.isLenientName : Json → Bool
  | .object [(_, .object [])] => true
  | _ => false

def Json.items : Json → List Json
  | .array items => items
  | _ => []

mutual

/-- Whether no name is spelled in a way that is only read leniently. -/
def Format.plainNames : {α : Type} → Format α → Json → Bool
  | _, .word32, _ | _, .word64, _ | _, .text, _ => true
  | _, .named .., j => !j.isLenientName
  | _, .list item, j => j.items.all item.plainNames
  | _, .record members, j => members.plainNames j 0
  | _, .union .., .object given =>
    (Json.member? given Format.tagName).all fun tag => !tag.isLenientName
  | _, .union left leftContent right rightContent _, .array (.string tag :: content :: _) =>
    if tag = left then leftContent.plainNames content
    else if tag = right then rightContent.plainNames content
    else true
  | _, .union .., _ => true
  | _, .checked plain _ _ _, j => plain.plainNames j

def Members.plainNames : {α : Type} → Members α → Json → Nat → Bool
  | _, .none, _, _ => true
  | _, .required name value rest, j, place | _, .optional name value rest, j, place =>
    (j.part? name place).all value.plainNames && rest.plainNames j (place + 1)
  | _, .list name item _ rest, j, place =>
    (j.part? name place).all (fun part => part.items.all item.plainNames) &&
      rest.plainNames j (place + 1)

end

/-- A value is spelled in another way, at the value itself. -/
inductive Format.Rewrite : {α : Type} → Format α → Json → Json → Prop where
  /-- The array of the members of a record, in the order of their declaration, for the object. -/
  | array {α : Type} {members : Members α} {given : List (String × Json)} {items : List Json}
    (h : List.Forall₂ (fun member item => (Json.member? given member.1).or member.2 = some item)
      members.blanks items) :
    Rewrite (.record members) (.object given) (.array items)
  /-- What stands for a missing member is left off the end of the array. -/
  | shorter {α : Type} {members : Members α} (items : List Json) {name : String} {blank : Json}
    (h : members.blanks[items.length]? = some (name, some blank)) :
    Rewrite (.record members) (.array (items ++ [blank])) (.array items)
  /-- What stands for a missing member is put into the object. -/
  | blank {α : Type} {members : Members α} {before after : List (String × Json)} {name : String}
    {blank : Json} (h : (name, some blank) ∈ members.blanks)
    (hn : Json.member? (before ++ after) name = none) :
    Rewrite (.record members) (.object (before ++ after))
      (.object (before ++ (name, blank) :: after))
  /-- A member that the record does not have is put into the object. -/
  | unknown {α : Type} {members : Members α} {before after : List (String × Json)} {name : String}
    {j : Json} (h : name ∉ members.names) :
    Rewrite (.record members) (.object (before ++ after)) (.object (before ++ (name, j) :: after))
  /-- The array of the tag and the content of a union for the object. -/
  | unionArray {α β : Type} {left right tag : String} {leftContent : Format α}
    {rightContent : Format β} {hne : left ≠ right} {given : List (String × Json)} {content : Json}
    (ht : (Json.member? given tagName).bind (Json.name? .strict) = some tag)
    (hc : Json.member? given contentName = some content)
    (hl : tag = left → leftContent.plainNames content)
    (hr : tag = right → rightContent.plainNames content) :
    Rewrite (.union left leftContent right rightContent hne) (.object given)
      (.array [.string tag, content])
  /-- A member besides the tag and the content is put into the object of a union. -/
  | unionUnknown {α β : Type} {left right : String} {leftContent : Format α}
    {rightContent : Format β} {hne : left ≠ right} {before after : List (String × Json)}
    {name : String} {j : Json} (ht : name ≠ tagName) (hc : name ≠ contentName) :
    Rewrite (.union left leftContent right rightContent hne) (.object (before ++ after))
      (.object (before ++ (name, j) :: after))
  /-- An object of its own for a name. -/
  | name {α : Type} {nameOf : α → String} {ofName? : String → Option α}
    {h : ∀ a, ofName? (nameOf a) = some a} {name : String} :
    Rewrite (.named nameOf ofName? h) (.string name) (.object [(name, .null)])

/-- A value is spelled in another way, at any place and depth. -/
inductive Format.Respells : {α : Type} → Format α → Json → Json → Prop where
  | here {α : Type} {format : Format α} {j j' : Json} (h : format.Rewrite j j') :
    Respells format j j'
  | item {α : Type} {item : Format α} {j j' : Json} (before after : List Json)
    (h : item.Respells j j') :
    Respells (.list item) (.array (before ++ j :: after)) (.array (before ++ j' :: after))
  | objectMember {α β : Type} {members : Members α} {value : Format β} {place : Nat} {name : String}
    {j j' : Json} (before after : List (String × Json)) (hm : members.Declares place name value)
    (h : value.Respells j j') :
    Respells (.record members) (.object (before ++ (name, j) :: after))
      (.object (before ++ (name, j') :: after))
  | arrayMember {α β : Type} {members : Members α} {value : Format β} {name : String} {j j' : Json}
    (before after : List Json) (hm : members.Declares before.length name value)
    (h : value.Respells j j') :
    Respells (.record members) (.array (before ++ j :: after)) (.array (before ++ j' :: after))
  | objectContent {α β : Type} {union : Format α} {content : Format β} {tag : String} {j j' : Json}
    {before after : List (String × Json)} (hc : union.Tags tag content)
    (ht : (Json.member? (before ++ after) tagName).bind (Json.name? .lenient) = some tag)
    (h : content.Respells j j') :
    Respells union (.object (before ++ (contentName, j) :: after))
      (.object (before ++ (contentName, j') :: after))
  | arrayContent {α β : Type} {union : Format α} {content : Format β} {tag : String} {j j' : Json}
    (hc : union.Tags tag content) (more : List Json) (h : content.Respells j j') :
    Respells union (.array (.string tag :: j :: more)) (.array (.string tag :: j' :: more))
  | plain {α β : Type} {plain : Format α} {build : α → Except Fault β} {parts : β → α}
    {build_parts : ∀ b, build (parts b) = .ok b} {j j' : Json} (h : plain.Respells j j') :
    Respells (.checked plain build parts build_parts) j j'

end SchemaStitching
