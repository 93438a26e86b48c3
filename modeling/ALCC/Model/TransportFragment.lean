import ALCC.Model.SproutPacket

/-! `transportfragment.cc`: an instruction, as the bytes that the protocol buffers make of it, is
cut into fragments, and the receiver puts the fragments of one instruction together. A failed
assertion yields `none`. A string is so short that its size fits into an `int`. -/

namespace ALCC.Sprout

open BigEndian

def HEADER_LEN : Nat := 66

structure Fragment where
  id : UInt64
  fragment_num : UInt16
  final : Bool
  initialized : Bool
  contents : Bytes
  deriving DecidableEq

namespace Fragment

/-- The constructor without arguments. -/
def empty : Fragment where
  id := -1
  fragment_num := -1
  final := false
  initialized := false
  contents := []

def frag_header_len : Nat := 8 + 2

def tostring (x : Fragment) : Option Bytes :=
  if x.initialized ∧ x.fragment_num &&& 0x8000 = 0 then
    let final : UInt16 := if x.final then 1 else 0
    let combined_fragment_num := final <<< 15 ||| x.fragment_num
    some (encode 8 x.id.toNat ++ encode 2 combined_fragment_num.toNat ++ x.contents)
  else
    none

/-- The constructor from a string. -/
def parse (x : Bytes) : Option Fragment :=
  if frag_header_len ≤ x.length then
    let fragment_num : UInt16 := .ofNat (decode ((x.drop 8).take 2))
    some {
      id := .ofNat (decode (x.take 8))
      fragment_num := fragment_num &&& 0x7FFF
      final := (fragment_num &&& 0x8000) >>> 15 ≠ 0
      initialized := true
      contents := x.drop frag_header_len }
  else
    none

end Fragment

structure Fragmenter where
  next_instruction_id : UInt64

namespace Fragmenter

def new : Fragmenter := ⟨0⟩

/-- The loop of `make_fragments`, for some rounds. -/
def cut (MTU : Nat) (id : UInt64) : (rounds : Nat) → (payload : Bytes) →
    (fragment_num : UInt16) → List Fragment
  | 0, _, _ => []
  | rounds + 1, payload, fragment_num =>
    if payload = [] then
      []
    else if MTU < payload.length + HEADER_LEN then
      ⟨id, fragment_num, false, true, payload.take (MTU - HEADER_LEN)⟩ ::
        cut MTU id rounds (payload.drop (MTU - HEADER_LEN)) (fragment_num + 1)
    else
      [⟨id, fragment_num, true, true, payload⟩]

/-- The fragments of an instruction. A round of the loop takes a byte at least. -/
def fragments (MTU : Nat) (id : UInt64) (payload : Bytes) : List Fragment :=
  cut MTU id payload.length payload 0

/-- When there is no room behind the header the loop goes on for ever, or leaves the string. -/
def make_fragments (payload : Bytes) (MTU : Nat) (f : Fragmenter) :
    Option (List Fragment × Fragmenter) :=
  if HEADER_LEN < MTU ∨ payload = [] then
    let id := f.next_instruction_id + 1
    some (fragments MTU id payload, ⟨id⟩)
  else
    none

/-- The strings that `send_in_fragments` queues for an instruction. -/
def send (MTU : Nat) (payload : Bytes) (f : Fragmenter) : Option (List Bytes × Fragmenter) :=
  (f.make_fragments payload MTU).bind fun (fragments, f) =>
    (fragments.mapM Fragment.tostring).map fun strings => (strings, f)

/-- Successive runs of `send_in_fragments`. -/
def sends (MTU : Nat) : List Bytes → Fragmenter → Option (List (List Bytes) × Fragmenter)
  | [], f => some ([], f)
  | payload :: payloads, f =>
    (f.send MTU payload).bind fun (strings, f) =>
      (sends MTU payloads f).map fun (rest, f) => (strings :: rest, f)

end Fragmenter

structure FragmentAssembly where
  fragments : List Fragment
  current_id : UInt64
  fragments_arrived : Int
  fragments_total : Int

namespace FragmentAssembly

def new : FragmentAssembly where
  fragments := []
  current_id := -1
  fragments_arrived := 0
  fragments_total := -1

/-- `vector::resize`. -/
def resize (size : Nat) (fragments : List Fragment) : List Fragment :=
  fragments.takeD size .empty

/-- `add_fragment`, up to its test of `final`. -/
def store (frag : Fragment) (a : FragmentAssembly) : Option FragmentAssembly :=
  let num := frag.fragment_num.toNat
  if a.current_id ≠ frag.id then
    some {
      fragments := (resize (num + 1) []).set num frag
      current_id := frag.id
      fragments_arrived := 1
      fragments_total := -1 }
  else if ∃ old ∈ a.fragments[num]?, old.initialized then
    if a.fragments[num]? = some frag then some a else none
  else
    let fragments :=
      if a.fragments.length < num + 1 then resize (num + 1) a.fragments else a.fragments
    some { a with
      fragments := fragments.set num frag
      fragments_arrived := a.fragments_arrived + 1 }

/-- The test of `final`. -/
def close (frag : Fragment) (a : FragmentAssembly) : Option FragmentAssembly :=
  if frag.final then
    let fragments_total := frag.fragment_num.toNat + 1
    if a.fragments.length ≤ fragments_total then
      some { a with fragments := resize fragments_total a.fragments, fragments_total }
    else
      none
  else
    some a

/-- Whether the instruction is complete is the first component. -/
def add_fragment (frag : Fragment) (a : FragmentAssembly) : Option (Bool × FragmentAssembly) :=
  (a.store frag).bind fun a => (a.close frag).bind fun a =>
    if a.fragments_total ≠ -1 ∧ a.fragments_total < a.fragments_arrived then
      none
    else
      some (decide (a.fragments_arrived = a.fragments_total), a)

/-- `get_assembly`, up to the parser of the protocol buffers. -/
def get_assembly (a : FragmentAssembly) : Option (Bytes × FragmentAssembly) :=
  let total := a.fragments_total.toNat
  if a.fragments_arrived = a.fragments_total ∧ total ≤ a.fragments.length ∧
      ∀ frag ∈ a.fragments.take total, frag.initialized then
    some (((a.fragments.take total).map Fragment.contents).flatten,
      { a with fragments := [], fragments_arrived := 0, fragments_total := -1 })
  else
    none

/-- What `Transport::recv` does with a string, up to the parser of the protocol buffers. The first
component is the assembly, once it is complete. -/
def recv (s : Bytes) (a : FragmentAssembly) : Option (Option Bytes × FragmentAssembly) :=
  (Fragment.parse s).bind fun frag => (a.add_fragment frag).bind fun
    | (false, a) => some (none, a)
    | (true, a) => a.get_assembly.map fun (encoded, a) => (some encoded, a)

/-- Successive runs of `recv`, and the assemblies that they complete. -/
def recvs : List Bytes → FragmentAssembly → Option (List Bytes × FragmentAssembly)
  | [], a => some ([], a)
  | s :: strings, a =>
    (a.recv s).bind fun (encoded, a) =>
      (recvs strings a).map fun (rest, a) => (encoded.toList ++ rest, a)

end FragmentAssembly

end ALCC.Sprout
