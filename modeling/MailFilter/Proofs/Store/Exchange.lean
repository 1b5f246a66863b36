import MailFilter.Proofs.Encoding
import MailFilter.Proofs.Script.Rebuilt
import MailFilter.Proofs.Store.Trees

/-!
# Scripts that are exchanged

A script goes to others as JSON and comes back from it.  Nothing that the tree means is lost on the way,
nor anything that its record and its canonical texts show; in a store, what comes back has one owner for
everything.
-/

namespace MailFilter

/-- A script of nodes can be written as JSON, which goes over bytes of UTF-8 and is read as a script
again.  That is the script it was, its record and its canonical texts are the same, and put into a store
it is linked. -/
theorem Script.ofJson_toJson {α : Type} [Located α] {t : Script α} (ht : t.IsExact) :
    ∃ (json : String) (bytes : Text.Bytes) (v : Value) (w : Script Location),
      t.toJson = .ok json ∧ encodeText "utf-8" json = .ok bytes ∧
      decode "utf-8" bytes = .ok json ∧ Value.ofJson json.toList = .ok v ∧ ofValue v = .ok w.data ∧
      w.alike t = true ∧ w.data.toValue = t.toValue ∧ (∀ o, w.text o = t.text o) ∧
      (∀ o, w.data.dataText o = t.data.dataText o) ∧
      (Store.empty.addScript w.data).1.Linked 0 w.data := by
  obtain ⟨v, hv, hexact, hread⟩ := ofValue_toValue ht
  have hcovered : Over Text.Charset.utf8.Covers v.json := fun _ _ => trivial
  obtain ⟨bytes, hbytes, hdecode⟩ := decode_of_encodeText Text.ofName?_utf8 hcovered
  have hjson : t.toJson = .ok v.json := by
    rw [toJson, hv]
    rfl
  have houtline := outline_rebuilt id t
  refine ⟨v.json, bytes, v, t.rebuilt, hjson, hbytes, hdecode, Value.ofJson_json hexact, hread,
    alike_of_outline houtline, toValue_rebuilt t, fun o => ?_, fun o => Layout.dataText_rebuilt o t,
    Store.linked_addScript Store.owned_empty t.rebuilt.data⟩
  exact Layout.text_congr o (outline_rebuilt (Layout.commentTexts o) t)

/-- A rule with a name, a number with a unit, a text in lines and one that is beyond the basic plane,
nested blocks, and comments above commands and at the end of blocks. -/
def nestedScript : Script :=
  ⟨⟨[.control
      ⟨"if", [.test (.mk "size" [.tag ":over" ⟨1, 9, 8⟩, .number 100 .kilo ⟨1, 15, 14⟩] [] ⟨1, 4, 3⟩)],
        [⟨" rule:[large]", .nowhere⟩], ⟨1, 1, 0⟩⟩
      [.control
        ⟨"if", [.test (.mk "not" [] [.test (.mk "true" [] [] ⟨2, 9, 8⟩)] ⟨2, 5, 4⟩)], [], ⟨2, 3, 2⟩⟩
        [.simple ⟨"reject", [.string "a\n.b" .multiline ⟨3, 12, 11⟩], [], ⟨3, 5, 4⟩⟩] [] ⟨2, 14, 13⟩,
        .simple ⟨"fileinto", [.string "𝄞" .quoted ⟨4, 12, 11⟩], [], ⟨4, 3, 2⟩⟩]
      [⟨" at the end", .nowhere⟩] ⟨1, 20, 19⟩], [], ⟨1, 1, 0⟩⟩,
    ["fileinto", "reject"], "nested.sieve", ⟨1, 1, 0⟩⟩

theorem ofJson_toJson_nested : nestedScript.IsExact ∧ ∃ json v, ∃ w : Script Location,
    nestedScript.toJson = .ok json ∧ Value.ofJson json.toList = .ok v ∧ Script.ofValue v = .ok w.data ∧
    w.alike nestedScript = true ∧ (Store.empty.addScript w.data).1.Linked 0 w.data := by
  have hexact : nestedScript.IsExact := by
    simp only [nestedScript, Script.IsExact, Script.commands, Command.AllExact, Command.IsExact, Head.IsExact,
      Argument.AllExact, Argument.IsExact, Test.IsExact, IsExactMark, Located.location, Location.ofPos,
      Value.IsExact]
    decide +kernel
  obtain ⟨json, -, v, w, hjson, -, -, hv, hw, halike, -, -, -, hlinked⟩ := Script.ofJson_toJson hexact
  exact ⟨hexact, json, v, w, hjson, hv, hw, halike, hlinked⟩

end MailFilter
