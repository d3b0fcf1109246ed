/-
  JSON — what the programs use of their JSON library.

  The library is not part of the repository; a `Json` stands for it.  What a result needs to know of
  it is a hypothesis of that result.  `Json.ofLines` is one with texts, booleans and objects, for
  running a program on given lines.
-/
import CdjEmu.Lib.Text

namespace CdjEmu

open Text

structure Json where
  Value : Type
  /-- `from_str` and `from_slice`, `none` for an error. -/
  parse : Bytes → Option Value
  /-- `to_string`. -/
  text : Value → Bytes
  get : Value → String → Option Value
  asStr : Value → Option Bytes
  asObject : Value → Option (List (String × Value))
  /-- `json!`. -/
  string : Bytes → Value
  bool : Bool → Value
  object : List (String × Value) → Value

/-! ## A small library -/

/-- Texts, booleans and objects. -/
inductive Doc where
  | text (b : Bytes)
  | bool (b : Bool)
  | nil
  | cons (key : String) (value rest : Doc)
  deriving DecidableEq

namespace Doc

/-- The text of a value, or of what is left of an object. -/
def print : Bool → Doc → Bytes
  | _, text b => bytes "\"" ++ b ++ bytes "\""
  | _, bool b => bytes (if b then "true" else "false")
  | false, nil => bytes "\x7b\x7d"
  | true, nil => bytes "\x7d"
  | inside, cons key value rest =>
    bytes (if inside then "," else "\x7b") ++ bytes "\"" ++ bytes key ++ bytes "\":" ++
      print false value ++ print true rest

def get (key : String) : Doc → Option Doc
  | cons k value rest => if k = key then some value else get key rest
  | _ => none

def asObject : Doc → Option (List (String × Doc))
  | nil => some []
  | cons key value rest => (asObject rest).map fun l => (key, value) :: l
  | _ => none

/-- Keys stand in order. -/
def insert (key : String) (value : Doc) : Doc → Doc
  | cons k v rest =>
    if k = key then cons key value rest
    else if key < k then cons key value (cons k v rest)
    else cons k v (insert key value rest)
  | _ => cons key value nil

def object (l : List (String × Doc)) : Doc := l.foldl (fun d p => insert p.1 p.2 d) nil

end Doc

/-- A library that reads these lines and no others. -/
def Json.ofLines (known : List (Bytes × Doc)) : Json where
  Value := Doc
  parse b := (known.find? fun p => p.1 = b).map Prod.snd
  text := Doc.print false
  get d key := d.get key
  asStr
    | .text b => some b
    | _ => none
  asObject := Doc.asObject
  string := .text
  bool := .bool
  object := Doc.object

end CdjEmu
