import LiveMarkup.Store

/-!
# Values written out

## Main definitions

* `Store.snapshot` — a value with everything it refers to at this moment.
-/

namespace LiveMarkup.Store

/-- The value written out, where `path` is what is being written around it, innermost first.  The
fuel bounds how many things are entered one inside the other. -/
def snapshotWithin (s : Store) : Nat → List Entity → Value → Snapshot
  | 0, _, _ => .undefined
  | fuel + 1, path, v =>
    match v.entity?.bind fun e => path.reverse.findIdx? (· == e) with
    | some level => .cycle level
    | none =>
      match v with
      | .undefined => .undefined
      | .null => .null
      | .bool b => .bool b
      | .number x => .number x
      | .string t => .string t
      | .array r => .array ((s.items r).map (s.snapshotWithin fuel (.array r :: path)))
      | .object r =>
        .object ((s.properties r).entries.map fun (name, v) =>
          (name, s.snapshotWithin fuel (.object r :: path) v))
      | .cell r => .cell (s.snapshotWithin fuel (.cell r :: path) (s.held r))
      | .function f => .function f.name

/-- A value with everything it refers to at this moment.  Nothing is entered twice on one way down,
so the depth is bounded by the size of the store. -/
def snapshot (s : Store) (v : Value) : Snapshot :=
  s.snapshotWithin (s.arrays.size + s.objects.size + s.cells.size + 1) [] v

end LiveMarkup.Store
