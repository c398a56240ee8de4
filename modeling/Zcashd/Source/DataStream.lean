import Zcashd.Lib.Codec

/-!
`CBaseDataStream` (`src/streams.h`): a vector of bytes with a read position, which is an
`unsigned int`. Iterators are positions among the unread bytes.

Bytes that were read stay in the vector, in front of the position, until the last one is read. An
insertion at the front overwrites them where there is room. So the vector is more than what is left
to read, and a sum with the position that wraps at `2 ^ 32` points into it again.
-/
namespace Zcashd.Source

open Lib

structure CBaseDataStream where
  vch : Bytes
  nReadPos : Nat

namespace CBaseDataStream

/-- `thrown` is the exception; after `undefined` a `memcpy` went past the end of the vector. -/
inductive Failure where
  | thrown
  | undefined
deriving DecidableEq

variable (s : CBaseDataStream)

/-- The bytes from `begin()` to `end()`. -/
def unread : Bytes := s.vch.drop s.nReadPos

def read (nSize : Nat) : Except Failure (Bytes × CBaseDataStream) :=
  if nSize = 0 then .ok ([], s)
  else
    let nReadPosNext := (s.nReadPos + nSize) % 2 ^ 32
    if nReadPosNext > s.vch.length then .error .thrown
    else if s.nReadPos + nSize > s.vch.length then .error .undefined
    else .ok (s.unread.take nSize, if nReadPosNext ≥ s.vch.length then ⟨[], 0⟩
      else ⟨s.vch, nReadPosNext⟩)

def ignore (nSize : Int) : Except Failure CBaseDataStream :=
  if nSize < 0 then .error .thrown
  else
    let nReadPosNext := (s.nReadPos + nSize.toNat) % 2 ^ 32
    if nReadPosNext > s.vch.length then .error .thrown
    else .ok (if nReadPosNext ≥ s.vch.length then ⟨[], 0⟩ else ⟨s.vch, nReadPosNext⟩)

def write (bytes : Bytes) : CBaseDataStream := ⟨s.vch ++ bytes, s.nReadPos⟩

def insert (it : Nat) (range : Bytes) : Except Failure CBaseDataStream :=
  if range = [] then .ok s
  else if it = 0 ∧ range.length % 2 ^ 32 ≤ s.nReadPos then
    -- special case for inserting at the front when there's room
    let nReadPos := s.nReadPos - range.length % 2 ^ 32
    if nReadPos + range.length > s.vch.length then .error .undefined
    else .ok ⟨s.vch.take nReadPos ++ range ++ s.vch.drop (nReadPos + range.length), nReadPos⟩
  else .ok ⟨s.vch.take (s.nReadPos + it) ++ range ++ s.vch.drop (s.nReadPos + it), s.nReadPos⟩

def erase (first last : Nat) : CBaseDataStream :=
  if first = 0 then
    if s.nReadPos + last = s.vch.length then ⟨[], 0⟩ else ⟨s.vch, (s.nReadPos + last) % 2 ^ 32⟩
  else ⟨s.vch.take (s.nReadPos + first) ++ s.vch.drop (s.nReadPos + last), s.nReadPos⟩

/-- `operator+=`. -/
def append (b : CBaseDataStream) : CBaseDataStream := s.write b.unread

/-- `operator<<` of a stream, by its `Serialize`. -/
def shiftLeft (b : CBaseDataStream) : CBaseDataStream := if b.vch = [] then s else s.write b.vch

end CBaseDataStream

end Zcashd.Source
