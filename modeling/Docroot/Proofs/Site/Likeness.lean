import Docroot.Proofs.Site.Containment
import Docroot.Proofs.Site.Listing
import Docroot.Proofs.Site.Twins

/-!
What a site makes of two trees that differ only in regular files outside its root. It finds the same targets,
and its pages differ at most in what they show of such files where an entry leads to them.
-/
namespace Docroot

/-- A page shows the same of both files. -/
def FileData.ShownAlike (data data' : FileData) : Prop :=
  Size.text data.content.length = Size.text data'.content.length ∧
    data.modified.listed = data'.modified.listed

namespace FileSystem

/-- Where entries of directories within the root lead to regular files outside of it, pages show the same of
these files. -/
def ListedAlike (root : Location) (fs fs' : FileSystem) : Prop :=
  ∀ (directory : Location) (names : List Bytes) (name : Bytes) (location : Location) (number number' : Nat),
    root <+: directory → fs.entryNames directory = .ok names → name ∈ names →
    fs.reach (Path.join directory.path name) = .ok location → ¬ root <+: location →
    fs.at? location = some (.file number) → fs'.at? location = some (.file number') →
    (fs.data number).ShownAlike (fs'.data number')

variable {root : Location} {fs fs' : FileSystem}

theorem NodeAlike.shown {counts : Prop} {node node' : Node} (same : NodeAlike fs fs' counts node node')
    (listed : ∀ number number', node = .file number → node' = .file number' → ¬ counts →
      (fs.data number).ShownAlike (fs'.data number')) :
    (fs.describe node).shown = (fs'.describe node').shown := by
  cases same with
  | @file number number' _ same =>
      by_cases inside : counts
      · simp only [describe, same inside]
      · obtain ⟨size, time⟩ := listed number number' rfl rfl inside
        simp [describe, Metadata.shown, size, time]
  | _ => rfl

namespace AlikeWithin

theorem metadata_shown (alike : AlikeWithin root fs fs') {location : Location}
    (listed : ∀ number number', fs.at? location = some (.file number) →
      fs'.at? location = some (.file number') → ¬ root <+: location →
      (fs.data number).ShownAlike (fs'.data number')) :
    (fs.metadata location).map Metadata.shown = (fs'.metadata location).map Metadata.shown := by
  have same := alike.nodes location
  unfold metadata
  generalize fs.at? location = look, fs'.at? location = look' at same listed
  cases same with
  | none => rfl
  | some same =>
      refine congrArg Except.ok (same.shown ?_)
      rintro number number' rfl rfl
      exact listed number number' rfl rfl

theorem itselfAt_shown (alike : AlikeWithin root fs fs') {directory : Location} (within : root <+: directory)
    (path name : Bytes) :
    (fs.itselfAt path directory name).map Metadata.shown =
      (fs'.itselfAt path directory name).map Metadata.shown := by
  unfold itselfAt
  split
  · rfl
  · cases found : fs.at? directory with
    | none => rw [alike.at?_none found]
    | some node =>
        obtain ⟨node', found', same⟩ := alike.at?_some found
        rw [found']
        cases same with
        | @directory info entries entries' =>
            dsimp only
            rw [alike.maySearch]
            split
            · rfl
            · have child := alike.nodes (directory ++ [name])
              rw [at?_concat found, at?_concat found'] at child
              generalize (Node.directory info entries).child? name = look,
                (Node.directory info entries').child? name = look' at child ⊢
              cases child with
              | none => rfl
              | some same =>
                  refine congrArg Except.ok (same.shown ?_)
                  intro _ _ _ _ outside
                  exact absurd (within.trans (List.prefix_append directory [name])) outside
        | _ => rfl

/-- The rows of a directory within the root show the same in both trees. -/
theorem entries_shown (alike : AlikeWithin root fs fs') (listed : ListedAlike root fs fs')
    {directory : Location} (settled : fs.Settled directory) (within : root <+: directory) :
    (Listing.entries fs directory.path).map (List.map Listing.shown) =
      (Listing.entries fs' directory.path).map (List.map Listing.shown) := by
  unfold Listing.entries
  rw [← alike.reach_eq]
  cases reached : fs.reach directory.path with
  | error e => rfl
  | ok place =>
      obtain rfl := reach_path settled reached
      dsimp only
      rw [← alike.entryNames_eq]
      cases named : fs.entryNames place with
      | error e => rfl
      | ok names =>
          refine congrArg Except.ok ?_
          rw [Listing.map_shown_mergeSort, Listing.map_shown_mergeSort, List.map_map, List.map_map]
          congr 1
          refine List.map_congr_left fun name member => ?_
          refine Listing.entry_shown (Metadata.toOption_shown ?_)
            (Metadata.toOption_shown (alike.itselfAt_shown within _ _)) name
          unfold targetAt
          rw [← alike.reach_eq]
          cases there : fs.reach (Path.join place.path name) with
          | error e => rfl
          | ok location =>
              refine alike.metadata_shown ?_
              intro number number' found found' outside
              exact listed place names name location number number' within named member there outside found found'

theorem ofPath_eq (alike : AlikeWithin root fs fs') (listed : ListedAlike root fs fs')
    {directory : Location} (settled : fs.Settled directory) (within : root <+: directory)
    (requestPath : Bytes) (limit : Nat) :
    Listing.ofPath fs directory.path requestPath limit =
      Listing.ofPath fs' directory.path requestPath limit := by
  have same := alike.entries_shown listed settled within
  unfold Listing.ofPath
  generalize Listing.entries fs directory.path = rows, Listing.entries fs' directory.path = rows' at same
  cases rows with
  | error e =>
      cases rows' with
      | error e' => cases same; rfl
      | ok rows' => cases same
  | ok rows =>
      cases rows' with
      | error e' => cases same
      | ok rows' =>
          dsimp only
          rw [Listing.render_eq, Listing.render_eq, Listing.page_eq_of_shown (Except.ok.inj same)]

end AlikeWithin

end FileSystem

variable {root : Location} {fs fs' : FileSystem}

theorem Target.offer_alike (alike : FileSystem.AlikeWithin root fs fs')
    (listed : FileSystem.ListedAlike root fs fs') {location : Location} (settled : fs.Settled location)
    (within : root <+: location) : Target.Alike Eq fs fs' (offer fs location) (offer fs' location) := by
  cases found : fs.at? location with
  | none =>
      unfold offer
      rw [found, alike.at?_none found]
      exact .error _
  | some node =>
      obtain ⟨node', found', same⟩ := alike.at?_some found
      unfold offer
      rw [found, found']
      cases same with
      | @file number number' readable counts =>
          have opens : fs.mayOpen number = fs'.mayOpen number' := by
            rw [FileSystem.mayOpen, FileSystem.mayOpen, alike.privileged, readable]
          simp only [Handle.openAt, found, found', opens]
          cases fs'.mayOpen number' with
          | false => exact .error _
          | true =>
              have data := counts within
              have length : Handle.length fs { number } = Handle.length fs' { number := number' } :=
                congrArg (List.length ∘ FileData.content) data
              rw [if_pos rfl, if_pos rfl]
              dsimp only
              rw [length]
              exact .file _ rfl ⟨data, rfl, rfl⟩
      | directory =>
          refine .directory fun path limit => ?_
          rw [alike.ofPath_eq listed settled within]
          exact .refl Eq _
      | link => exact .error _
      | special => exact .error _

theorem Target.resolve_alike (alike : FileSystem.AlikeWithin root fs fs')
    (listed : FileSystem.ListedAlike root fs fs') (path : Bytes) :
    Target.Alike Eq fs fs' (resolve fs root path) (resolve fs' root path) := by
  unfold resolve
  cases decode? path with
  | none => exact .error _
  | some decoded =>
      dsimp only
      rw [← alike.canonicalize_eq]
      cases arrived : fs.canonicalize _ with
      | error e => exact .error _
      | ok location =>
          dsimp only
          split
          · next within =>
            exact offer_alike alike listed (FileSystem.canonicalize_settled arrived)
              (List.isPrefixOf_iff_prefix.mp within)
          · exact .error _

/-- The same moment with another tree. -/
def World.within (files : FileSystem) (world : World) : World := { world with files }

end Docroot
