/-! Texts that are kept as bytes under a path, where there may be none. -/
namespace ObjectQuery.Text

inductive ReadFailure where
  | missing
  | notText
  deriving DecidableEq, Repr

def ReadFailure.message : ReadFailure → String
  | .missing => "No such file or directory (os error 2)"
  | .notText => "stream did not contain valid UTF-8"

def ofStored : Option ByteArray → Except ReadFailure String
  | none => .error .missing
  | some bytes =>
    match String.fromUTF8? bytes with
    | none => .error .notText
    | some text => .ok text

end ObjectQuery.Text
