import Pegasos.Fat.Names
import Pegasos.Hosted.Fat.Volume

/-!
# Names and paths

`path.c` of the hosted FAT code, behind `path_parse_fn`.  A path is the list of its bytes up
to the NUL; a name in it is given by where it begins in memory and its length.
-/

namespace Pegasos.Hosted

open Fat (Substr SLASH BACKSLASH)

def isSeparator (ch : UInt8) : Bool := ch = BACKSLASH ∨ ch = SLASH

/-- `path_next_dir_ele`. -/
def pathNextDirEle (fn : List UInt8) (start : Nat) : Substr :=
  let rest := fn.drop start
  let skipped := (rest.takeWhile isSeparator).length
  { start := start + skipped
    len := ((rest.drop skipped).takeWhile fun ch => !isSeparator ch).length }

/-- `path_split`: the path and the name behind the last backslash. -/
def pathSplit (fn : List UInt8) : List UInt8 × List UInt8 :=
  if BACKSLASH ∈ fn then
    let name := (fn.reverse.takeWhile (· ≠ BACKSLASH)).reverse
    (fn.take (fn.length - name.length - 1), name)
  else ([], fn)

/-- The bytes of an ASCII text. -/
def bytes (text : String) : List UInt8 := text.toList.map fun ch => UInt8.ofNat ch.toNat

example : pathSplit (bytes "a\\b\\c.d") = (bytes "a\\b", bytes "c.d") := by decide

end Pegasos.Hosted
