import NoteMarkup.Proofs.Invariants
import NoteMarkup.Proofs.Outline

/-!
This module contains how invariants of drafts are shown on outlines: what the elementary steps on outlines keep, the
steps on drafts keep of the drafts the outlines stand for.
-/

namespace NoteMarkup

def Draft.Outlined {g : Grammar} (Q : Outline g → Prop) (d : Draft) : Prop :=
  ∃ z : Outline g, Q z ∧ z.draft = d

namespace Cleaner

variable {g : Grammar} {o : CleaningOptions} {Q : Outline g → Prop}

structure KeepsOutline (o : CleaningOptions) (Q : Outline g → Prop) : Prop where
  text : ∀ {z}, Q z → ∀ content, Q (z.hold (.text .nil content))
  standalone : ∀ {z kind e}, Q z → Opens ⟨g, o⟩ kind e → e.standalone →
    ∀ attributes, Q (z.hold (.standalone .nil kind attributes))
  openSilently : ∀ {z}, Q z → ∀ name, Q (z.openSilently name 0)
  openWritten : ∀ {z} {tag : Tag g}, Q z → Opens ⟨g, o⟩ tag.entry.kind tag.entry → tag.entry.standalone = false →
    Q (z.openWritten tag 0)
  close : ∀ {z}, Q z → ∀ n, Q (z.close n)
  putUp : ∀ {z z'}, Q z → Q z' → ∀ n, Q (z'.putUp (z.line n))

theorem KeepsOutline.keeps (hQ : KeepsOutline o Q) : Keeps ⟨g, o⟩ (Draft.Outlined Q) where
  text := by
    rintro _ ⟨z, hz, rfl⟩ content
    exact ⟨_, hQ.text hz content, Outline.hold_text_draft content z⟩
  standalone := by
    rintro _ kind e ⟨z, hz, rfl⟩ hopens hstandalone attributes
    exact ⟨_, hQ.standalone hz hopens hstandalone attributes, Outline.hold_standalone_draft kind attributes z⟩
  openSilently := by
    rintro _ ⟨z, hz, rfl⟩ name
    exact ⟨_, hQ.openSilently hz name, Outline.openSilently_draft name 0 z⟩
  openWritten := by
    rintro _ kind e ⟨z, hz, rfl⟩ hopens hstandalone attributes
    have hkind : e.kind = kind := by simpa using List.find?_some hopens.declared
    subst hkind
    let tag : Tag g := ⟨e, attributes, hopens.declared⟩
    exact ⟨_, @KeepsOutline.openWritten _ _ _ hQ z tag hz hopens hstandalone, Outline.openWritten_draft tag 0 z⟩
  close := by
    rintro _ ⟨z, hz, rfl⟩ n
    exact ⟨_, hQ.close hz n, Outline.close_draft n z⟩
  putUp := by
    rintro _ _ ⟨z, hz, rfl⟩ ⟨z', hz', rfl⟩ n
    exact ⟨_, hQ.putUp hz hz' n, (Outline.putUp_draft _ _ _ (Outline.line_draft n z)).symm⟩

theorem keepsOutline_true (g : Grammar) (o : CleaningOptions) : KeepsOutline (g := g) o fun _ => True := by
  constructor <;> intros <;> trivial

end Cleaner

end NoteMarkup
