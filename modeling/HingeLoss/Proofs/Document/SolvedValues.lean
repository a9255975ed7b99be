import HingeLoss.Proofs.Document.RoundTrip
import HingeLoss.Proofs.Document.Storage
import HingeLoss.Proofs.Text.Utf8

/-!
# Solutions that are written and read again

A solution is a record in which every name is a key. The names are distinct, so each entry that is
read goes behind the entries before it, and the solution comes back in its order. Two solutions are
therefore never written alike.
-/

namespace HingeLoss

open Json Json.Reader Text

namespace SolvedValues

/-- The names are distinct and the values are finite numbers. -/
structure IsExpressible (values : SolvedValues Float) : Prop where
  distinct : (values.entries.map Prod.fst).Nodup
  finite : ∀ entry ∈ values.entries, entry.2.isFinite = true

theorem put_of_not_mem {values : SolvedValues Float} {name : String}
    (fresh : name ∉ values.entries.map Prod.fst) (value : Float) :
    values.put name value = ⟨values.entries ++ [(name, value)]⟩ := by
  have absent : (values.entries.any fun entry => entry.1 == name) = false := by
    rw [List.any_eq_false]
    intro entry mem same
    exact fresh (beq_iff_eq.1 same ▸ List.mem_map_of_mem mem)
  rw [put, absent]
  rfl

theorem run_readEntry {name : String} {value : Float} {before : SolvedValues Float}
    (reads : Reads float (writtenFloat value) value)
    (fresh : name ∉ before.entries.map Prod.fst) (rest : Source) (closes : Closes rest) :
    (readEntry name before).run (some ':' :: (sourceOf (writtenFloat value) ++ rest)) =
      .ok (⟨before.entries ++ [(name, value)]⟩, rest) := by
  have visible : isSpace (some ':') = false := rfl
  simp [readEntry, colon, run_peekToken visible, eat, reads.run rest closes, put_of_not_mem fresh]

/-- The members of the record. -/
def members (entries : List (String × Float)) : List (String × String) :=
  entries.map fun (name, value) => (name, writtenFloat value)

/-- The names before those that are still to be read are kept apart from them. -/
theorem collects_members {before entries : List (String × Float)}
    (distinct : ((before ++ entries).map Prod.fst).Nodup)
    (finite : ∀ entry ∈ entries, entry.2.isFinite = true) :
    Collects readEntry ⟨before⟩ (members entries) ⟨before ++ entries⟩ := by
  induction entries generalizing before with
  | nil =>
      rw [List.append_nil]
      exact .nil
  | cons entry entries ih =>
      rcases entry with ⟨name, value⟩
      rw [List.forall_mem_cons] at finite
      have fresh : name ∉ before.map Prod.fst := by
        rw [List.map_append, List.nodup_append] at distinct
        intro mem
        exact distinct.2.2 name mem name (by simp) rfl
      have reads := (reads_writtenFloat finite.1).1
      rw [List.append_cons] at distinct ⊢
      exact .cons (run_readEntry reads fresh) (ih distinct finite.2)

theorem reads_entries {depth : Nat} (deep : 1 < depth) {values : SolvedValues Float}
    (expressible : values.IsExpressible) :
    Reads (readEntries depth) (writtenRecord (members values.entries)) values := by
  refine ⟨begins_writtenRecord _, ?_⟩
  intro rest _
  have opening : isSpace (some '\x7b') = false := rfl
  have collects : Collects readEntry ⟨[]⟩ (members values.entries) ⟨values.entries⟩ :=
    collects_members expressible.distinct expressible.finite
  have body := run_recordBody collects rest
  rw [sourceOf_writtenRecord]
  simp [readEntries, run_peekToken opening, run_enter deep, body, eat]

theorem reads_toText {depth : Nat} (deep : 2 < depth) {values : SolvedValues Float}
    (expressible : values.IsExpressible) : Reads (read depth) values.toText values := by
  have entries := reads_entries (show 1 < depth - 1 by omega) expressible
  have solution : Collects (readField (depth - 1)) none
      [("solution", writtenRecord (members values.entries))] (some values) :=
    .cons (entries.run_field "solution" some) .nil
  exact Reads.record (by omega) solution rfl

/-- A solution is read back from the bytes that are written for it. The names come back in their
order with the same doubles, and no other solution is written with these bytes. -/
theorem read_written {values : SolvedValues Float} (expressible : values.IsExpressible) :
    let document := (RawText.ofString values.toText).bytes
    (∀ path filter before, Ends (behind filter (values.write path)) before fun outcome after =>
        outcome = .ok ⟨⟩ → after.files.read after.workingDirectory path = .ok document) ∧
      runWhole (read depthLimit) (decodeUtf8 document) = .ok values ∧
        ∀ other : SolvedValues Float, other.IsExpressible → other ≠ values →
          (RawText.ofString other.toText).bytes ≠ document := by
  intro document
  have decoded {written : SolvedValues Float} (isExpressible : written.IsExpressible) :
      runWhole (read depthLimit) (decodeUtf8 (RawText.ofString written.toText).bytes) =
        .ok written := by
    rw [decodeUtf8_ofString]
    exact (reads_toText (by decide) isExpressible).runWhole_eq
  refine ⟨values.ends_write_readable, decoded expressible, ?_⟩
  intro other otherExpressible different same
  have again := decoded otherExpressible
  rw [same, decoded expressible, Except.ok.injEq] at again
  exact different again.symm

theorem read_written_escaped_name :
    let values : SolvedValues Float := ⟨[("q\"\\\n\x01é😀", 0.1), ("7", -0.0)]⟩
    let exchanged : SolvedValues Float := ⟨[("7", -0.0), ("q\"\\\n\x01é😀", 0.1)]⟩
    let path := RawText.ofString "new/solution"
    let ended := (behind ⟨[]⟩ (values.write path)).run.run (Machine.start .empty [])
    let document := (RawText.ofString values.toText).bytes
    values.toText =
        "\x7b\"solution\":\x7b\"q\\\"\\\\\\n\\u0001é😀\":0.1,\"7\":-0.0\x7d\x7d" ∧
      ended.1 = .ok ⟨⟩ ∧ ended.2.files.read ended.2.workingDirectory path = .ok document ∧
        runWhole (read depthLimit) (decodeUtf8 document) = .ok values ∧
          exchanged ≠ values ∧ (RawText.ofString exchanged.toText).bytes ≠ document := by
  intro values exchanged path ended document
  have expressible : values.IsExpressible := ⟨by decide, by decide +kernel⟩
  have alsoExpressible : exchanged.IsExpressible := ⟨by decide, by decide +kernel⟩
  have different : exchanged ≠ values := by
    intro same
    exact absurd (congrArg (fun values => values.entries.map Prod.fst) same) (by decide)
  rcases read_written expressible with ⟨written, reads, apart⟩
  have wrote : ended.1 = .ok ⟨⟩ := toOption_eq_some_iff.1 (by decide +kernel)
  exact ⟨by decide +kernel, wrote, written path _ _ wrote, reads, different,
    apart exchanged alsoExpressible different⟩

end SolvedValues

end HingeLoss
