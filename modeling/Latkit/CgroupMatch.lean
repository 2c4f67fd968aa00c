import Latkit.Frame
import Latkit.Delimited
import Latkit.Wildcard

/-! The glob of `cgroup_match.c`: one segment against one pattern segment, and a path against a pattern. -/

namespace Latkit
open Wildcard Delimited

def starChar : Byte := '*'.toUInt8
def anyChar : Byte := '?'.toUInt8

def isSlash (c : Byte) : Bool := c == '/'.toUInt8

def nextSegment (text : List Byte) : List Byte := (text.dropWhile (!isSlash ·)).tail

end Latkit
