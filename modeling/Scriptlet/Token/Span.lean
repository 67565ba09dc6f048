/-! # Spans

A span is a range of byte offsets of a source. Start and length are machine words, so that bounds
beyond the range of a word wrap around.
-/

namespace Scriptlet

structure Span where
  start : UInt32
  length : UInt32
deriving DecidableEq, Repr

namespace Span

def ofBounds (start stop : Nat) : Span :=
  ⟨start.toUInt32, (stop - start).toUInt32⟩

/-- The offset one past the span. -/
def stop (span : Span) : Nat :=
  span.start.toNat + span.length.toNat

theorem start_ofBounds {start stop : Nat} (h : start < UInt32.size) :
    (ofBounds start stop).start.toNat = start :=
  UInt32.toNat_ofNat_of_lt' h

theorem length_ofBounds {start stop : Nat} (h : stop < UInt32.size) :
    (ofBounds start stop).length.toNat = stop - start :=
  UInt32.toNat_ofNat_of_lt' (Nat.lt_of_le_of_lt (Nat.sub_le stop start) h)

theorem stop_ofBounds {start stop : Nat} (hle : start ≤ stop) (h : stop < UInt32.size) :
    (ofBounds start stop).stop = stop := by
  rw [Span.stop, start_ofBounds (Nat.lt_of_le_of_lt hle h), length_ofBounds h]
  exact Nat.add_sub_cancel' hle

end Span

end Scriptlet
