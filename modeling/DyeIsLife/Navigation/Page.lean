import Mathlib.Data.List.Basic

/-!
# The pages of the app

The navigator is a stack of pages above `MappingPage`, which itself shows
`LoginRegisterPage` or `HomePage`.  Pages only ever push; the system back
button pops.  Here are the pages, what their buttons push directly, and what an
upload page pushes when it is done; the pushes that come with a write or after
an await belong to the device.
-/

namespace DyeIsLife.Navigation

/-- The pages of the app. -/
inductive Page where
  | loginRegister
  | home
  | profile
  | editProfile
  | changeProfilePhoto
  | choosePost
  | uploadPhoto
  | uploadDiscussion
  | comment
  | discussionComment
  | info
  | rules
  | web
  deriving DecidableEq

/-- The pages that a button of a page pushes directly. -/
def Page.opens : Page → List Page
  | .home => [.choosePost, .info, .home, .profile, .comment, .discussionComment]
  | .profile => [.info, .home, .profile, .changeProfilePhoto, .editProfile]
  | .choosePost => [.uploadDiscussion, .uploadPhoto]
  | .info => [.web, .rules, .info, .home, .profile]
  | .comment => [.comment]
  | .discussionComment => [.discussionComment]
  | _ => []

/-- The page that `goToHomePage` of an upload page pushes when its upload is
done. -/
def Page.afterUpload : Page → Option Page
  | .uploadPhoto => some .home
  | .changeProfilePhoto => some .profile
  | _ => none

inductive AuthStatus where
  | notSignedIn
  | signedIn
  deriving DecidableEq

/-- `_MappingPageState.build`. -/
def AuthStatus.shows : AuthStatus → Page
  | .notSignedIn => .loginRegister
  | .signedIn => .home

theorem Page.opens_loginRegister : Page.loginRegister.opens = [] :=
  rfl

end DyeIsLife.Navigation
