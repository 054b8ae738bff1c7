import ProxyGateway.Lib.Regex
import ProxyGateway.Lib.Text

set_option autoImplicit false

/-!
# ProxyGateway.Release.Tags

`release-tags.sh`: the precedence of release tags, and the choice among the tags of the origin. What
`git` answers is a parameter (`Git`); characters are compared as in the C locale.
-/

namespace ProxyGateway.Release

open Regex
open Text (splitAt joinWith)
open RegularExpression (char star)

/-! ### Tags -/

/-- `0-9` -/
def digits : List Char := "0123456789".toList

/-- `1-9` -/
def nonzeroDigits : List Char := "123456789".toList

/-- `0-9A-Za-z-` -/
def identifierChars : List Char := "0123456789ABCDEFGHIJKLMNOPQRSTUVWXYZabcdefghijklmnopqrstuvwxyz-".toList

/-- `0|[1-9][0-9]*` -/
def numberPattern : RegularExpression Char := char '0' + oneOf nonzeroDigits * star (oneOf digits)

/-- `[0-9A-Za-z-]+(\.[0-9A-Za-z-]+)*` -/
def identifiersPattern : RegularExpression Char := separated '.' (many (oneOf identifierChars))

/-- The pattern of a tag. -/
def tagPattern : RegularExpression Char :=
  char 'v' * (numberPattern * (char '.' * (numberPattern * (char '.' * (numberPattern *
    (optional (char '-' * identifiersPattern) * optional (char '+' * identifiersPattern)))))))

/-- `PDG_SEMVER_CORE`, `PDG_SEMVER_PRE` and `PDG_SEMVER_BUILD` -/
structure Semver where
  core : List Char
  pre : List Char
  build : List Char
  deriving DecidableEq

/-- `${text%%sep*}` -/
def upTo (sep : Char) (text : List Char) : List Char := text.takeWhile (· ≠ sep)

/-- `${text#*sep}`, where `sep` is in the text. -/
def behind (sep : Char) (text : List Char) : List Char := (text.dropWhile (· ≠ sep)).drop 1

/-- `[[ "$ident" =~ ^[0-9]+$ ]]` -/
def isNumeric (ident : List Char) : Bool := !ident.isEmpty && ident.all (· ∈ digits)

/-- A number that starts with a zero and is not zero. -/
def hasLeadingZero (ident : List Char) : Bool := isNumeric ident && ident != ['0'] && ident.head? == some '0'

/-- `_pdg_release_semver_parse` -/
def releaseSemverParse (value : List Char) : Option Semver :=
  if tagPattern.rmatch value then
    let core := if value.head? = some 'v' then value.drop 1 else value
    let build := if '+' ∈ core then behind '+' core else []
    let core := if '+' ∈ core then upTo '+' core else core
    let pre := if '-' ∈ core then behind '-' core else []
    let core := if '-' ∈ core then upTo '-' core else core
    if pre ≠ [] ∧ (splitAt '.' pre).any hasLeadingZero then none else some ⟨core, pre, build⟩
  else none

/-- `pdg_release_semver_valid` -/
def releaseSemverValid (value : List Char) : Bool := (releaseSemverParse value).isSome

/-! ### Precedence -/

/-- The loops over `a` and `b`. -/
def dropZeros : List Char → List Char
  | '0' :: c :: rest => dropZeros (c :: rest)
  | text => text

/-- `[[ -n "$a" ]] || a=0` -/
def orZero (text : List Char) : List Char := if text = [] then ['0'] else text

/-- `_pdg_release_num_cmp`: `1`, `-1` or `0` -/
def releaseNumCmp (a b : List Char) : Ordering :=
  let a := orZero (dropZeros a)
  let b := orZero (dropZeros b)
  if a.length > b.length then .gt
  else if a.length < b.length then .lt
  else if b < a then .gt
  else if a < b then .lt
  else .eq

/-- The loop over the numbers of the core. -/
def coreCmp (la ra : List (List Char)) : List Nat → Ordering
  | [] => .eq
  | i :: rest =>
      match releaseNumCmp (la.getD i []) (ra.getD i []) with
      | .eq => coreCmp la ra rest
      | cmp => cmp

/-- The loop over the identifiers of two pre-releases. -/
def preCmp : List (List Char) → List (List Char) → Ordering
  | [], [] => .eq
  | [], _ :: _ => .lt
  | _ :: _, [] => .gt
  | li :: lparts, ri :: rparts =>
      if isNumeric li && isNumeric ri then
        match releaseNumCmp li ri with
        | .eq => preCmp lparts rparts
        | cmp => cmp
      else if isNumeric li then .lt
      else if isNumeric ri then .gt
      else if ri < li then .gt
      else if li < ri then .lt
      else preCmp lparts rparts

/-- `pdg_release_semver_cmp`; none when it prints nothing and fails. -/
def releaseSemverCmp (left right : List Char) : Option Ordering := do
  let l ← releaseSemverParse left
  let r ← releaseSemverParse right
  match coreCmp (splitAt '.' l.core) (splitAt '.' r.core) [0, 1, 2] with
  | .eq =>
      if l.pre = [] then return if r.pre = [] then .eq else .gt
      else if r.pre = [] then return .lt
      else return preCmp (splitAt '.' l.pre) (splitAt '.' r.pre)
  | cmp => return cmp

/-! ### The choice -/

/-- What `git` and the file system answer. -/
structure Git where
  repo : String
  isDirectory : Bool
  remoteGetUrl : Bool
  fetch : Bool
  isShallow : Option String
  unshallow : Bool
  verifyMain : Bool
  forEachRef : List (List Char)
  showRef : List Char → Bool
  revParse : List Char → Option String
  isAncestor : String → Bool

/-- `pdg_origin_release_refresh` -/
def originReleaseRefresh (git : Git) : Except String Unit := do
  if !git.isDirectory then throw ("不是 Git 仓库: " ++ git.repo)
  if !git.remoteGetUrl then throw "仓库缺少 origin"
  if !git.fetch then throw "无法从 origin 获取 main/release tags"
  match git.isShallow with
  | none => throw ""
  | some shallow => if shallow = "true" ∧ git.unshallow = false then throw "无法完整获取 origin release 历史"
  if !git.verifyMain then throw "origin/main 不可解析"

/-- `refs/pdg-origin-tags/` -/
def tagRefs : List Char := "refs/pdg-origin-tags/".toList

/-- `$ref^{commit}` -/
def peeled (ref : List Char) : List Char := ref ++ "^\x7bcommit\x7d".toList

/-- `${ref#refs/pdg-origin-tags/}` -/
def tagOf (ref : List Char) : List Char := if tagRefs.isPrefixOf ref then ref.drop tagRefs.length else ref

/-- The loop over the tags of the origin, with `best`. -/
def selectFrom : List (List Char) → List Char → Except String (List Char)
  | [], best => .ok best
  | ref :: refs, best =>
      let tag := tagOf ref
      if !releaseSemverValid tag then selectFrom refs best
      else if best = [] then selectFrom refs tag
      else match releaseSemverCmp tag best with
        | none => .error ""
        | some .gt => selectFrom refs tag
        | some .eq =>
            if tag ≠ best then
              .error ("origin 存在 SemVer 优先级相同的歧义 tags: " ++ String.ofList best ++ " / " ++ String.ofList tag)
            else selectFrom refs best
        | some .lt => selectFrom refs best

/-- `PDG_RELEASE_TAG`, `PDG_RELEASE_COMMIT` and `PDG_RELEASE_OBJECT` -/
structure Selection where
  tag : List Char
  commit : String
  object : String
  deriving DecidableEq

/-- `pdg_origin_release_select` -/
def originReleaseSelect (git : Git) (requested : List Char) : Except String Selection := do
  originReleaseRefresh git
  let best ←
    if requested ≠ [] then
      if !releaseSemverValid requested then
        throw ("目标版本不是严格 SemVer tag: " ++ String.ofList requested)
      else if !git.showRef (tagRefs ++ requested) then
        throw ("origin 未发布目标 tag: " ++ String.ofList requested)
      else pure requested
    else do
      let best ← selectFrom git.forEachRef []
      if best = [] then throw "origin 没有有效的 v* SemVer release tag" else pure best
  match git.revParse (tagRefs ++ best) with
  | none => throw ""
  | some object =>
      match git.revParse (peeled (tagRefs ++ best)) with
      | none => throw ("origin tag " ++ String.ofList best ++ " 无法 peel 到 commit")
      | some commit =>
          if git.isAncestor commit then pure ⟨best, commit, object⟩
          else throw ("origin tag " ++ String.ofList best ++ " 不在 origin/main 历史上")

end ProxyGateway.Release
