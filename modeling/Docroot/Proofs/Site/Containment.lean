import Docroot.Proofs.FileSystem.Handle
import Docroot.Proofs.FileSystem.Walk
import Docroot.Site.Target
import Mathlib

/-!
What a request target can lead to. Whatever the tree has become since the root was found, and however a
target is spelled, what it is resolved to lies beneath the root, at a place without links.
-/
namespace Docroot

theorem canonicalRoot_arrives {fs : FileSystem} {spelling : Bytes} {root : Location}
    (accepted : canonicalRoot fs spelling = .ok root) : fs.canonicalize spelling = .ok root := by
  unfold canonicalRoot at accepted
  split at accepted
  · cases accepted
  · next location arrived =>
    split at accepted
    · cases accepted
    · split at accepted
      · cases accepted
        exact arrived
      · cases accepted

/-- The root that is served is a settled directory of the tree in which it was found. -/
theorem canonicalRoot_settled {fs : FileSystem} {spelling : Bytes} {root : Location}
    (accepted : canonicalRoot fs spelling = .ok root) :
    fs.Settled root ∧ ∃ info entries, fs.at? root = some (.directory info entries) := by
  unfold canonicalRoot at accepted
  split at accepted
  · cases accepted
  · next location arrived =>
    unfold FileSystem.metadata at accepted
    cases found : fs.at? location with
    | none => simp [found] at accepted
    | some node =>
        cases node with
        | directory info entries =>
            simp only [found, FileSystem.describe, if_true, Except.ok.injEq] at accepted
            subst accepted
            exact ⟨FileSystem.canonicalize_settled arrived, info, entries, found⟩
        | _ => simp [found, FileSystem.describe] at accepted

namespace Target

/-- What a target is, as the tree has it: a directory, or a regular file with its length and a handle that
reads its content from the front. -/
def Genuine (fs : FileSystem) : Target → Prop
  | .directory location => ∃ info entries, fs.at? location = some (.directory info entries)
  | .file location handle length =>
    ∃ number, fs.at? location = some (.file number) ∧ length = (fs.data number).content.length ∧
      handle.number = number ∧ handle.offset = 0 ∧
      ∀ want, (handle.read fs want).1 = .ok ((fs.data number).content.take want)

theorem offer_genuine {fs : FileSystem} {place : Location} {target : Target}
    (offered : offer fs place = .ok target) : target.location = place ∧ target.Genuine fs := by
  unfold offer at offered
  split at offered
  · next info entries found => cases offered; exact ⟨rfl, info, entries, found⟩
  · split at offered
    · next handle opened =>
      obtain ⟨number, found, rfl⟩ := Handle.openAt_ok opened
      cases offered
      exact ⟨rfl, number, found, rfl, rfl, rfl, fun want => Handle.read_fresh fs number want⟩
    · split at offered <;> cases offered
  · cases offered
  · cases offered

theorem resolve_eq_ok_iff {fs : FileSystem} {root : Location} {request : Bytes} {target : Target} :
    resolve fs root request = .ok target ↔
      ∃ decoded place, decode? request = some decoded ∧
        fs.canonicalize (Path.join root.path (decoded.dropWhile (· == Path.separator))) = .ok place ∧
        root <+: place ∧ offer fs place = .ok target := by
  unfold resolve
  constructor
  · intro found
    split at found
    · cases found
    · next decoded isText =>
      split at found
      · cases found
      · next place arrived =>
        split at found
        · next within => exact ⟨decoded, place, isText, arrived, List.isPrefixOf_iff_prefix.mp within, found⟩
        · cases found
  · rintro ⟨decoded, place, isText, arrived, within, offered⟩
    rw [isText]
    dsimp only
    rw [arrived]
    exact (if_pos (List.isPrefixOf_iff_prefix.mpr within)).trans offered

/-- A target that is found was walked to, and the walk ended within the root. -/
theorem resolve_ok {fs : FileSystem} {root : Location} {request : Bytes} {target : Target}
    (found : resolve fs root request = .ok target) :
    fs.Settled target.location ∧ root <+: target.location ∧ target.Genuine fs := by
  obtain ⟨decoded, place, -, arrived, within, offered⟩ := resolve_eq_ok_iff.mp found
  obtain ⟨rfl, genuine⟩ := offer_genuine offered
  exact ⟨FileSystem.canonicalize_settled arrived, within, genuine⟩

/-- A file that is found is read from its front to its end. -/
theorem resolve_file {fs : FileSystem} {root location : Location} {request : Bytes} {handle : Handle}
    {length : Nat} (found : resolve fs root request = .ok (.file location handle length)) :
    handle.turns = [] ∧ length = (handle.ahead fs).length := by
  obtain ⟨_, place, -, -, -, offered⟩ := resolve_eq_ok_iff.mp found
  unfold offer at offered
  split at offered
  · cases offered
  · split at offered
    · next handle opened =>
      obtain ⟨number, -, rfl⟩ := Handle.openAt_ok opened
      cases offered
      exact ⟨rfl, rfl⟩
    · split at offered <;> cases offered
  · cases offered
  · cases offered

/-- Whatever a request is resolved to lies beneath the root that was found at startup, by the components
of the two spellings, and is in the present tree what it is said to be, without a link on the way. -/
theorem resolve_contained {started now : FileSystem} {spelling : Bytes} {root : Location}
    {request : Bytes} {target : Target} (accepted : canonicalRoot started spelling = .ok root)
    (found : resolve now root request = .ok target) :
    now.Settled target.location ∧
      Path.isAbsolute target.location.path = true ∧
      Path.components target.location.path = [Path.separator] :: target.location ∧
      Path.components root.path <+: Path.components target.location.path ∧
      target.Genuine now := by
  obtain ⟨settled, within, genuine⟩ := resolve_ok found
  refine ⟨settled, Location.isAbsolute_path _, Location.components_path settled.names, ?_, genuine⟩
  rw [Location.components_path (canonicalRoot_settled accepted).1.names,
    Location.components_path settled.names]
  exact List.cons_prefix_cons.mpr ⟨rfl, within⟩

/-- A tree whose root is named by a link. -/
def treeAtStartup : FileSystem where
  root := .directory {}
    [(utf8 "w", .link ⟨0, 0⟩ (utf8 "/srv")),
      (utf8 "srv", .directory {} [(utf8 "d", .directory {} [(utf8 "f", .file 0)])])]
  files := [{ content := utf8 "hi" }]

/-- The tree later: the link is gone, and a link in the root leads out of it and by another one back. -/
def treeOfLinks : FileSystem where
  root := .directory {}
    [(utf8 "srv", .directory {}
        [(utf8 "in", .link ⟨0, 0⟩ (utf8 "/out/back")),
          (utf8 "d", .directory {} [(utf8 "f", .file 0)])]),
      (utf8 "out", .directory {} [(utf8 "back", .link ⟨0, 0⟩ (utf8 "../srv/d"))])]
  files := [{ content := utf8 "hi" }]

/-- The chain of links and an escaped `..` lead to the file, which lies beneath the root. -/
theorem resolve_contained_through_links :
    canonicalRoot treeAtStartup (utf8 "/w") = .ok [utf8 "srv"] ∧
      resolve treeOfLinks [utf8 "srv"] (utf8 "/in/%2e%2e//d/f") =
        .ok (.file [utf8 "srv", utf8 "d", utf8 "f"] ⟨0, 0, []⟩ 2) ∧
      treeOfLinks.Settled [utf8 "srv", utf8 "d", utf8 "f"] ∧
      Path.components (Location.path [utf8 "srv"]) <+:
        Path.components (Location.path [utf8 "srv", utf8 "d", utf8 "f"]) := by
  have accepted : canonicalRoot treeAtStartup (utf8 "/w") = .ok [utf8 "srv"] := by cbv
  have isText : decode? (utf8 "/in/%2e%2e//d/f") = some (utf8 "/in/..//d/f") := by
    have decoded : Percent.decode (utf8 "/in/%2e%2e//d/f") = utf8 "/in/..//d/f" := by cbv
    unfold decode?
    rw [decoded]
    exact if_pos ⟨by cbv, by decide⟩
  have found : resolve treeOfLinks [utf8 "srv"] (utf8 "/in/%2e%2e//d/f") =
      .ok (.file [utf8 "srv", utf8 "d", utf8 "f"] ⟨0, 0, []⟩ 2) := by
    unfold resolve
    rw [isText]
    cbv
  obtain ⟨settled, -, -, within, -⟩ := resolve_contained accepted found
  exact ⟨accepted, found, settled, within⟩

end Target

end Docroot
