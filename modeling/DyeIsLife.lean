import DyeIsLife.Transition.Core
import DyeIsLife.Store.Tree
import DyeIsLife.Firebase.Database
import DyeIsLife.Firebase.Export
import DyeIsLife.Auth.Session
import DyeIsLife.Auth.Coherence
import DyeIsLife.Navigation.Page
import DyeIsLife.Records.Writes
import DyeIsLife.Pages.Upload
import DyeIsLife.Pages.Delivery
import DyeIsLife.Pages.Submission
import DyeIsLife.Records.UserInfo
import DyeIsLife.Records.Profiles
import DyeIsLife.Pages.LoginRegister
import DyeIsLife.Pages.Ledger
import DyeIsLife.Pages.Registration
import DyeIsLife.Pages.Agreement
import DyeIsLife.Pages.Reading
import DyeIsLife.Pages.Feed
import DyeIsLife.App.Device
import DyeIsLife.App.Sessions
import DyeIsLife.App.World
import DyeIsLife.App.Comments
import DyeIsLife.App.Confinement
import DyeIsLife.Pages.DiscussionFeed
import DyeIsLife.Pages.HomeBuilds
import DyeIsLife.Pages.PlaceSearch
import DyeIsLife.Time.Calendar
import DyeIsLife.Pages.Storage
import DyeIsLife.App.Fields
import DyeIsLife.Store.Overlay
import DyeIsLife.Sync.Acknowledgement
import DyeIsLife.Sync.Agreement
import DyeIsLife.Sync.Order
import DyeIsLife.Sync.Repo
import DyeIsLife.Sync.Snapshot
import DyeIsLife.App.Client
import DyeIsLife.App.Archive
import DyeIsLife.Sorted.Balance
import DyeIsLife.Sorted.Removal
import DyeIsLife.Sync.WebSocket
import DyeIsLife.Sorted.Builder
import DyeIsLife.Sorted.Enumerator
import DyeIsLife.Sorted.SortedDictionary
import DyeIsLife.Sync.Children
