import MarkdownTemplates.Proofs.FileTree.Replace
import MarkdownTemplates.Proofs.Snapshot.Storage
import MarkdownTemplates.Project

/-!
# The file of the snapshot

A snapshot that has been saved is what is read from its file afterwards.
-/

namespace MarkdownTemplates

namespace Project

variable {p : Project} {now : Nat} {s d : Snapshot} {t t' : FileTree} {text : String}

theorem fromUTF8?_toUTF8 (text : String) : String.fromUTF8? text.toUTF8 = some text := by
  rw [String.fromUTF8?, String.toUTF8_eq_toByteArray, dif_pos text.isValidUTF8]
  rfl

theorem isName_snapshotName : FileTree.IsName snapshotName.text := ⟨by decide, by decide, by decide, by decide⟩

/-- The name of the file in which a snapshot is written first. -/
def temporaryName (now : Nat) : String := snapshotName.text ++ ".tmp-" ++ toString now

theorem isName_temporaryName (now : Nat) : FileTree.IsName (temporaryName now) := by
  have hl : (temporaryName now).toList = "metadata.json.tmp-".toList ++ Nat.toDigits 10 now := by
    simp [temporaryName, snapshotName]
  refine ⟨?_, ?_, ?_, ?_⟩
  · simp [hl]
  · rw [hl, List.mem_append, not_or]
    refine ⟨by decide, fun h => ?_⟩
    have := Text.isDigit_of_mem_toDigits h
    revert this
    decide
  · simp [hl]
  · simp [hl]

theorem temporaryName_ne_snapshotName (now : Nat) : temporaryName now ≠ snapshotName.text := by
  intro h
  have hlength := congrArg String.length h
  have htmp : ".tmp-".length = 5 := rfl
  simp only [temporaryName, String.length_append, htmp] at hlength
  omega

/-- Files that are written at different times have different names. -/
theorem temporaryName_injective : Function.Injective temporaryName := fun a b h => by
  have hdigits : a.repr = b.repr := by simpa [temporaryName] using h
  exact Nat.repr_inj.mp hdigits

/-- What saving does in the tree `t`, in which the directories have been made that give the tree `t₁`. -/
theorem save_cases (p : Project) (now : Nat) (s : Snapshot) {t t₁ : FileTree} (ht : (t.makeDirectories p.cacheDir).2 = t₁) :
    (∃ e, p.save now s t = (.error e, t₁)) ∨
      t.makeDirectories p.cacheDir = (.ok (), t₁) ∧ ∃ t₂, t₁.write (p.temporaryPath now) s.encode.toUTF8 now = .ok t₂ ∧
        ((∃ x e, t₂.rename (p.temporaryPath now) p.cachePath = .error x ∧
            p.save now s t = (.error e, (t₂.remove (p.temporaryPath now)).toOption.getD t₂)) ∨
          ∃ t₃, t₂.rename (p.temporaryPath now) p.cachePath = .ok t₃ ∧ p.save now s t = (.ok (), t₃)) := by
  unfold save
  rcases hm : t.makeDirectories p.cacheDir with ⟨e | _, made⟩ <;> rw [hm] at ht <;> subst ht
  · exact .inl ⟨_, rfl⟩
  · dsimp only
    cases hw : made.write (p.temporaryPath now) s.encode.toUTF8 now with
    | error e => exact .inl ⟨_, rfl⟩
    | ok t₂ =>
      refine .inr ⟨rfl, t₂, rfl, ?_⟩
      dsimp only
      cases hr : t₂.rename (p.temporaryPath now) p.cachePath with
      | error x => exact .inl ⟨x, _, rfl, rfl⟩
      | ok t₃ => exact .inr ⟨t₃, rfl, rfl⟩

theorem exists_of_save (h : p.save now s t = (.ok (), t')) :
    ∃ t₁ t₂, t.addDirectories p.cacheDir = .ok t₁ ∧ t₁.write (p.temporaryPath now) s.encode.toUTF8 now = .ok t₂ ∧
      t₂.rename (p.temporaryPath now) p.cachePath = .ok t' := by
  rcases save_cases p now s (t := t) rfl with ⟨e, he⟩ | ⟨hm, t₂, hw, ⟨x, e, -, he⟩ | ⟨t₃, hr, hs⟩⟩
  · cases he.symm.trans h
  · cases he.symm.trans h
  · cases hs.symm.trans h
    exact ⟨_, t₂, FileTree.addDirectories_eq_ok.mpr hm, hw, hr⟩

/-- Whatever the file of the snapshot says after saving is the snapshot. -/
theorem eq_of_readText_save (h : p.save now s t = (.ok (), t')) (hr : t'.readText p.cachePath = .ok text) :
    text = s.encode := by
  obtain ⟨t₁, t₂, -, hw, hm⟩ := exists_of_save h
  obtain ⟨b, hb, htext⟩ := FileTree.readText_eq_ok.mp hr
  obtain rfl := FileTree.eq_of_readBytes_replaced isName_snapshotName (isName_temporaryName now) hw hm hb
  rw [fromUTF8?_toUTF8] at htext
  exact (Option.some.inj htext).symm

/-- Without links at the file of the snapshot and at the temporary file, the file can be read after saving. -/
theorem readText_save (h : p.save now s t = (.ok (), t'))
    (hn : ∀ dir x, t.lookup? (snapshotName.text :: dir) ≠ some (.link x))
    (ht : ∀ dir x, t.lookup? (temporaryName now :: dir) ≠ some (.link x)) : t'.readText p.cachePath = .ok s.encode := by
  obtain ⟨t₁, t₂, ha, hw, hm⟩ := exists_of_save h
  have hb := FileTree.readBytes_replaced isName_snapshotName (isName_temporaryName now) hw hm
    (fun dir x hx => hn dir x (FileTree.link_of_addDirectories ha hx))
    (fun dir x hx => ht dir x (FileTree.link_of_addDirectories ha hx))
  exact FileTree.readText_eq_ok.mpr ⟨_, hb, fromUTF8?_toUTF8 _⟩

/-- Where the directory is still found after saving, the file can be read, unless a link was at the temporary file. -/
theorem readText_save_of_isDirectory (h : p.save now s t = (.ok (), t')) (hd : t'.isDirectory p.cacheDir = true)
    (ht : ∀ dir x, t.lookup? (temporaryName now :: dir) ≠ some (.link x)) : t'.readText p.cachePath = .ok s.encode := by
  obtain ⟨t₁, t₂, ha, hw, hm⟩ := exists_of_save h
  have hb := FileTree.readBytes_replaced_of_isDirectory isName_snapshotName (isName_temporaryName now) hw hm
    (fun dir x hx => ht dir x (FileTree.link_of_addDirectories ha hx)) hd
  exact FileTree.readText_eq_ok.mpr ⟨_, hb, fromUTF8?_toUTF8 _⟩

theorem persisted_eq_some : p.persisted t = .ok (some d) ↔
    ∃ text, t.readText p.cachePath = .ok text ∧ Snapshot.decode? text = some d := by
  unfold persisted
  cases hr : t.readText p.cachePath with
  | error e => cases e <;> simp
  | ok text => cases hd : Snapshot.decode? text <;> simp [hd]

theorem persisted_of_error {e : FileError} (hr : t.readText p.cachePath = .error e) :
    p.persisted t = .ok none ∨ p.persisted t = .error (.io e) := by
  unfold persisted
  rw [hr]
  cases e <;> simp

/-- Whatever is stored after saving is the snapshot. -/
theorem eq_of_persisted_save (h : p.save now s t = (.ok (), t')) (hd : p.persisted t' = .ok (some d)) : d = s := by
  obtain ⟨text, hr, hd⟩ := persisted_eq_some.mp hd
  rw [eq_of_readText_save h hr] at hd
  exact Snapshot.eq_of_decode?_encode hd

/-- Are the files into which a manager writes at the time `now` no links, wherever they are? -/
structure NoLinks (t : FileTree) (now : Nat) : Prop where
  snapshot : ∀ dir x, t.lookup? (snapshotName.text :: dir) ≠ some (.link x)
  temporary : ∀ dir x, t.lookup? (temporaryName now :: dir) ≠ some (.link x)

theorem noLinks_of_isLinkFree (h : t.IsLinkFree) (now : Nat) : NoLinks t now :=
  ⟨fun _ x => h _ x, fun _ x => h _ x⟩

theorem persisted_of_readText (hr : t.readText p.cachePath = .ok s.encode) (hs : s.isStorable = true) :
    p.persisted t = .ok (some s) := by
  refine persisted_eq_some.mpr ⟨s.encode, hr, ?_⟩
  rw [Snapshot.decode?_encode, if_pos hs]

theorem persisted_save (h : p.save now s t = (.ok (), t')) (hn : NoLinks t now) (hs : s.isStorable = true) :
    p.persisted t' = .ok (some s) :=
  persisted_of_readText (readText_save h hn.snapshot hn.temporary) hs

/-- Is what stands in the tree `t'`, after the snapshot `s` was saved in the tree `t`, that snapshot and no other? It can be read
where the path of the cache directory leads to a directory, unless a link was at the temporary file or a number is too large. -/
structure IsSaved (p : Project) (now : Nat) (s : Snapshot) (t t' : FileTree) : Prop where
  unique : ∀ d, p.persisted t' = .ok (some d) → d = s
  persisted : t'.isDirectory p.cacheDir = true → (∀ dir x, t.lookup? (temporaryName now :: dir) ≠ some (.link x)) →
    s.isStorable = true → p.persisted t' = .ok (some s)

theorem isSaved_of_save (h : p.save now s t = (.ok (), t')) : p.IsSaved now s t t' where
  unique _ hd := eq_of_persisted_save h hd
  persisted hd ht hs := persisted_of_readText (readText_save_of_isDirectory h hd ht) hs

end Project

end MarkdownTemplates
