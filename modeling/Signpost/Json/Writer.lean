import Signpost.Json.Basic

namespace Signpost.Json

/-- Inside a string only the quote, the backslash and the controls below U+0020 are escaped. -/
def escape (c : Char) : List Char :=
  match c with
  | '"' => ['\\', '"']
  | '\\' => ['\\', '\\']
  | '\x08' => ['\\', 'b']
  | '\t' => ['\\', 't']
  | '\n' => ['\\', 'n']
  | '\x0c' => ['\\', 'f']
  | '\r' => ['\\', 'r']
  | c =>
    if c.toNat < 0x20 then
      ['\\', 'u', '0', '0', Nat.digitChar (c.toNat / 16), Nat.digitChar (c.toNat % 16)]
    else [c]

def quoted (s : String) : List Char :=
  '"' :: (s.toList.flatMap escape ++ ['"'])

def intChars : Int → List Char
  | .ofNat n => Nat.toDigits 10 n
  | .negSucc n => '-' :: Nat.toDigits 10 (n + 1)

def atomChars : Json → List Char
  | bool true => "true".toList
  | bool false => "false".toList
  | int n => intChars n
  | real t => t.toList
  | str t => quoted t
  | illFormed => "\"\\ud800\"".toList
  | _ => "null".toList

mutual

def chars : Json → List Char
  | arr [] => "[]".toList
  | arr (v :: vs) => '[' :: (chars v ++ itemsChars vs)
  | obj [] => ['\x7b', '\x7d']
  | obj ((k, v) :: fields) => '\x7b' :: (quoted k ++ ':' :: (chars v ++ fieldsChars fields))
  | v => atomChars v

def itemsChars : List Json → List Char
  | [] => [']']
  | v :: vs => ',' :: (chars v ++ itemsChars vs)

def fieldsChars : List (String × Json) → List Char
  | [] => ['\x7d']
  | (k, v) :: fields => ',' :: (quoted k ++ ':' :: (chars v ++ fieldsChars fields))

end

@[simp] theorem chars_null : null.chars = ['n', 'u', 'l', 'l'] := rfl

@[simp] theorem chars_true : (bool true).chars = ['t', 'r', 'u', 'e'] := rfl

@[simp] theorem chars_false : (bool false).chars = ['f', 'a', 'l', 's', 'e'] := rfl

@[simp] theorem chars_int (n : Int) : (int n).chars = intChars n := rfl

@[simp] theorem chars_real (t : String) : (real t).chars = t.toList := rfl

@[simp] theorem chars_str (t : String) : (str t).chars = quoted t := rfl

@[simp] theorem chars_arr_nil : (arr []).chars = ['[', ']'] := rfl

@[simp] theorem chars_arr_cons (v : Json) (vs : List Json) :
    (arr (v :: vs)).chars = '[' :: (v.chars ++ itemsChars vs) := rfl

@[simp] theorem chars_obj_nil : (obj []).chars = ['\x7b', '\x7d'] := rfl

@[simp] theorem chars_obj_cons (k : String) (v : Json) (fields : List (String × Json)) :
    (obj ((k, v) :: fields)).chars = '\x7b' :: (quoted k ++ ':' :: (v.chars ++ fieldsChars fields)) := rfl

@[simp] theorem itemsChars_nil : itemsChars [] = [']'] := rfl

@[simp] theorem itemsChars_cons (v : Json) (vs : List Json) :
    itemsChars (v :: vs) = ',' :: (v.chars ++ itemsChars vs) := rfl

@[simp] theorem fieldsChars_nil : fieldsChars [] = ['\x7d'] := rfl

@[simp] theorem fieldsChars_cons (k : String) (v : Json) (fields : List (String × Json)) :
    fieldsChars ((k, v) :: fields) = ',' :: (quoted k ++ ':' :: (v.chars ++ fieldsChars fields)) := rfl

def toText (v : Json) : String :=
  String.ofList v.chars

def newLine (level : Nat) : List Char :=
  '\n' :: List.replicate (2 * level) ' '

mutual

def indentedChars (level : Nat) : Json → List Char
  | arr [] => "[]".toList
  | arr (v :: vs) =>
    '[' :: (newLine (level + 1) ++ indentedChars (level + 1) v ++ indentedItems level vs)
  | obj [] => ['\x7b', '\x7d']
  | obj ((k, v) :: fields) =>
    '\x7b' :: (newLine (level + 1) ++ quoted k ++ ':' :: ' ' :: indentedChars (level + 1) v ++
      indentedFields level fields)
  | v => atomChars v

def indentedItems (level : Nat) : List Json → List Char
  | [] => newLine level ++ [']']
  | v :: vs => ',' :: (newLine (level + 1) ++ indentedChars (level + 1) v ++ indentedItems level vs)

def indentedFields (level : Nat) : List (String × Json) → List Char
  | [] => newLine level ++ ['\x7d']
  | (k, v) :: fields =>
    ',' :: (newLine (level + 1) ++ quoted k ++ ':' :: ' ' :: indentedChars (level + 1) v ++
      indentedFields level fields)

end

def toIndentedText (v : Json) : String :=
  String.ofList (indentedChars 0 v)

end Signpost.Json
