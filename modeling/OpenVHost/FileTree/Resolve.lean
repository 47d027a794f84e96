/-
# Resolution of a path in parts

* `resolveFrom_append` — a path in two parts resolves through where the first leads.
* `resolve_append_entry` — a path goes on to an entry that is no link.
* `readDir_of_stat` — what is found beneath a path is listed in the directory there.
-/

import OpenVHost.FileTree.Replace

namespace FileTree

namespace Tree

variable {t : Tree} {p q : Path}

/-- What is left of a walk after the first part of its names. -/
def Through (t : Tree) (rest : List Name) (q : Path) (mid : Except Errno Path) : Prop :=
  ∃ m links, mid = .ok m ∧ t.resolveFrom false links m rest = .ok q

theorem walk_append {follow : Path → List Name → Except Errno Path} {links : Nat} {ys : List Name}
    (hw : t.walk false follow = t.resolveFrom false links)
    (hf : ∀ cur zs, follow cur (zs ++ ys) = .ok q → t.Through ys q (follow cur zs)) :
    ∀ (xs : List Name) (cur : Path), t.walk false follow cur (xs ++ ys) = .ok q →
      t.Through ys q (t.walk false follow cur xs)
  | [], cur, h => ⟨cur, links, rfl, by rw [← hw]; exact h⟩
  | c :: xs, cur, h => by
      rw [List.cons_append] at h
      unfold walk at h ⊢
      split at h
      next hc =>
        rw [if_pos hc]
        exact walk_append hw hf xs cur h
      next hc =>
        rw [if_neg hc]
        split at h
        next hd =>
          rw [if_pos hd]
          exact walk_append hw hf xs _ h
        next hd =>
          rw [if_neg hd]
          split at h
          next => simp at h
          next => exact walk_append hw hf xs _ h
          next =>
            -- a file stands at the end, so that nothing is left of either part
            split at h
            next he =>
              obtain ⟨rfl, rfl⟩ : xs = [] ∧ ys = [] := by simpa using he
              have hself : t.resolveFrom false links (cur ++ [c]) [] = .ok (cur ++ [c]) := by
                rw [← hw]
                rfl
              cases h
              exact ⟨cur ++ [c], links, rfl, hself⟩
            next => cases h
          next target =>
            rw [← List.append_assoc] at h
            exact hf _ _ h

/-- **A path in two parts resolves through where the first part leads.** -/
theorem resolveFrom_append (ys : List Name) :
    ∀ (links : Nat) (cur : Path) (xs : List Name),
      t.resolveFrom false links cur (xs ++ ys) = .ok q →
        t.Through ys q (t.resolveFrom false links cur xs)
  | 0, cur, xs, h => by
      have hw : (t.walk false fun _ _ => .error .filesystemLoop) = t.resolveFrom false 0 := rfl
      exact walk_append hw (fun _ _ h => by cases h) xs cur h
  | links + 1, cur, xs, h => by
      have hw : t.walk false (t.resolveFrom false links) = t.resolveFrom false (links + 1) := rfl
      exact walk_append hw (resolveFrom_append ys links) xs cur h

theorem walk_append_entry {follow : Path → List Name → Except Errno Path} {m : Path} {n : Name}
    {x : Node} (hn : special n = false) (hx : t.node (m ++ [n]) = some x)
    (hlink : x.isSymlink = false)
    (hf : ∀ cur zs, follow cur zs = .ok m → follow cur (zs ++ [n]) = .ok (m ++ [n])) :
    ∀ (xs : List Name) (cur : Path), t.walk false follow cur xs = .ok m →
      t.walk false follow cur (xs ++ [n]) = .ok (m ++ [n])
  | [], cur, h => by
      obtain rfl : cur = m := Except.ok.inj h
      rw [List.nil_append, walk_plain hn, hx]
      cases x with
      | symlink target => cases hlink
      | _ => rfl
  | c :: xs, cur, h => by
      rw [List.cons_append]
      unfold walk at h ⊢
      split at h
      next hc =>
        rw [if_pos hc]
        exact walk_append_entry hn hx hlink hf xs cur h
      next hc =>
        rw [if_neg hc]
        split at h
        next hup =>
          rw [if_pos hup]
          exact walk_append_entry hn hx hlink hf xs _ h
        next hup =>
          rw [if_neg hup]
          split at h
          next => simp at h
          next => exact walk_append_entry hn hx hlink hf xs _ h
          next hfile =>
            -- a file has nothing beneath it
            split at h
            next =>
              obtain rfl : cur ++ [c] = m := Except.ok.inj h
              have hdir := isDir_of_child (has_of_node hx)
              simp [isDir, hfile, Node.isDir] at hdir
            next => cases h
          next target =>
            rw [← List.append_assoc]
            exact hf _ _ h

theorem resolveFrom_append_entry {m : Path} {n : Name} {x : Node} (hn : special n = false)
    (hx : t.node (m ++ [n]) = some x) (hlink : x.isSymlink = false) : ∀ (links : Nat) (cur : Path) (xs : List Name),
      t.resolveFrom false links cur xs = .ok m →
      t.resolveFrom false links cur (xs ++ [n]) = .ok (m ++ [n])
  | 0, cur, xs, h => walk_append_entry hn hx hlink (fun _ _ h => by cases h) xs cur h
  | links + 1, cur, xs, h =>
      walk_append_entry hn hx hlink (resolveFrom_append_entry hn hx hlink links) xs cur h

/-- **A path goes on to an entry that is no link.** -/
theorem resolve_append_entry {m : Path} {n : Name} {x : Node} (hn : special n = false)
    (hx : t.node (m ++ [n]) = some x) (hlink : x.isSymlink = false) (h : t.resolve p = .ok m) :
    t.resolve (p ++ [n]) = .ok (m ++ [n]) :=
  resolveFrom_append_entry hn hx hlink maxLinks [] p h

/-- What a name resolves to sits in a directory that lists it. -/
theorem has_of_resolveFrom {links : Nat} {n : Name} {cur : Path} (hn : special n = false)
    (h : t.resolveFrom false links cur [n] = .ok q) : t.has (cur ++ [n]) = true := by
  have hwalk : ∃ follow, t.walk false follow cur [n] = .ok q := by
    cases links with
    | zero => exact ⟨_, h⟩
    | succ links => exact ⟨_, h⟩
  obtain ⟨follow, hw⟩ := hwalk
  rw [walk_plain hn] at hw
  unfold has
  cases hnode : t.node (cur ++ [n]) with
  | none => simp [hnode] at hw
  | some x => rfl

/-- A directory lists the name under which a path goes on. -/
theorem readDir_of_resolve {n : Name} (hn : special n = false)
    (h : t.resolve (p ++ [n]) = .ok q) : ∃ names, t.readDir p = .ok names ∧ n ∈ names := by
  obtain ⟨mid, links, hmid, hrest⟩ := resolveFrom_append [n] maxLinks [] p h
  have hhas := has_of_resolveFrom hn hrest
  refine ⟨t.entries mid, ?_, mem_entries.mpr ⟨hhas, hn⟩⟩
  have hmid : t.resolve p = .ok mid := hmid
  rw [readDir, hmid]
  simp [isDir_of_child hhas]

/-- What is found beneath a path is listed in the directory there. -/
theorem readDir_of_lstat {n m : Name} (hn : special n = false) (hm : special m = false) {x : Node}
    (h : t.lstat (p ++ [n, m]) = .ok x) : ∃ names, t.readDir p = .ok names ∧ n ∈ names := by
  have hsplit : p ++ [n, m] = (p ++ [n]) ++ [m] := by simp
  rw [lstat, hsplit, locate, List.getLast?_concat, List.dropLast_concat] at h
  simp only [hm, Bool.false_eq_true, if_false] at h
  cases hr : t.resolve (p ++ [n]) with
  | error e => simp [hr] at h
  | ok q => exact readDir_of_resolve hn hr

theorem nodup_of_readDir {names : List Name} (h : t.readDir p = .ok names) : names.Nodup := by
  unfold readDir at h
  split at h
  next => cases h
  next =>
    split at h
    · cases h
      exact List.nodup_dedup _
    · cases h

end Tree

end FileTree
