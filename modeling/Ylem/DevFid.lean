import Ylem.Device

/-!
# Where a replica lives

`MogileFS::DevFID`: the path of a fid on a device, in the directory of the tracker's volume, and its URL
on the device's host.
-/

namespace Ylem

/-- The ten digits of a fid, more if it needs more. -/
def nfid (fid : ℕ) : Text := Text.zeroPad 10 fid

/-- `/dev<devid>/vol<volid>/<b>/<mmm>/<ttt>/<nfid>.fid`; the directories are the first seven digits. -/
def uriPath (volid devid : Text) (fid : ℕ) : Text :=
  let n := nfid fid
  "/dev".toList ++ devid ++ "/vol".toList ++ volid ++ '/' :: n.take 1 ++ '/' :: (n.drop 1).take 3 ++
    '/' :: (n.drop 4).take 3 ++ '/' :: n ++ ".fid".toList

theorem uriPath_eq_dir_append (volid devid : Text) (fid : ℕ) :
    ∃ dir, uriPath volid devid fid = dir ++ '/' :: (nfid fid ++ ".fid".toList) :=
  ⟨_, List.append_assoc _ _ _⟩

theorem uriPath_eq_vol_append (volid devid : Text) (fid : ℕ) :
    ∃ rest, uriPath volid devid fid = "/dev".toList ++ devid ++ ("/vol".toList ++ rest) := by
  have hpre : "/dev".toList ++ devid ++ "/vol".toList <+: uriPath volid devid fid := by
    unfold uriPath
    iterate 6 refine List.IsPrefix.trans ?_ (List.prefix_append _ _)
    exact List.prefix_rfl
  obtain ⟨rest, hrest⟩ := hpre
  exact ⟨rest, by rw [← hrest, List.append_assoc]⟩

theorem exists_uriPath_eq_append (volid : Text) (fid : ℕ) :
    ∃ rest, ∀ devid, uriPath volid devid fid = "/dev".toList ++ devid ++ rest := by
  unfold uriPath
  generalize "/dev".toList = dev, "/vol".toList = vol, ".fid".toList = suffix
  simp only [List.append_assoc]
  exact ⟨_, fun _ => rfl⟩

/-- The full URL on a host; the port is the one for reading where there is one, if that is asked for. -/
def fullUrl (zone : Zone) (host : Host) (useGetPort : Bool) (path : Text) : Text :=
  let port := if useGetPort then host.httpGetPort.or host.httpPort else host.httpPort
  "http://".toList ++ (host.ip zone).getD [] ++ ':' :: (port.map Text.decimal).getD [] ++ path

theorem exists_fullUrl_eq_append (zone : Zone) (host : Host) (useGetPort : Bool) :
    ∃ start, ∀ path, fullUrl zone host useGetPort path = start ++ path :=
  ⟨_, fun _ => rfl⟩

/-- The URLs of a fid on two devices differ, on whatever hosts. -/
theorem eq_of_fullUrl_eq {zone : Zone} {host host' : Host} {useGetPort : Bool} {volid : Text}
    {devid devid' fid : ℕ} (h : fullUrl zone host useGetPort (uriPath volid (Text.decimal devid) fid) =
      fullUrl zone host' useGetPort (uriPath volid (Text.decimal devid') fid)) : devid = devid' := by
  obtain ⟨rest, hrest⟩ := exists_uriPath_eq_append volid fid
  obtain ⟨start, hstart⟩ := exists_fullUrl_eq_append zone host useGetPort
  obtain ⟨start', hstart'⟩ := exists_fullUrl_eq_append zone host' useGetPort
  have hdev : "/dev".toList = ['/', 'd', 'e', 'v'] := by decide
  have hv : ∀ n, 'v' ∉ Text.decimal n := fun n hmem => absurd (Text.isDigit_of_mem_decimal hmem) (by decide)
  rw [hstart, hstart', hrest, hrest, hdev] at h
  simp only [← List.append_assoc] at h
  have hdevices := List.append_cancel_right h
  have hpieces : start ++ ['/', 'd', 'e'] ++ 'v' :: Text.decimal devid =
      start' ++ ['/', 'd', 'e'] ++ 'v' :: Text.decimal devid' := by
    simpa using hdevices
  exact Text.decimal_injective (Text.last_piece_inj hpieces (hv devid) (hv devid'))

end Ylem
